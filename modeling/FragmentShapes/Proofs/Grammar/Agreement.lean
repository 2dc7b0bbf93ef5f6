import FragmentShapes.Grammar.Predictive
import Mathlib.Data.List.Forall2
import Mathlib.Tactic.Common

/-!
# Grammars and the lines of their tokens

Parsers look at the kinds of tokens and hand the tokens on; on which lines they stand decides nothing.
`Grammar.Agree g post` is a condition on the grammar alone: whenever the tokens of two phrases of `g` are
the same but for their lines, and the values of rules are equal, the values of the phrases satisfy `post`.

The main statement is `Language.parse_agree`: if the bodies of all rules have equal values in this sense,
then tokens that differ in their lines only are parsed to values in the relation `post`, or fail at the
same place.
-/

namespace FragmentShapes

open Token (Kind Located)

variable {R : Type → Type}

/-- The same token, perhaps on another line. -/
def Token.Located.SameToken (t u : Located) : Prop := t.token = u.token

theorem Token.Located.SameToken.kind_eq {t u : Located} (h : t.SameToken u) : t.kind = u.kind :=
  congrArg Token.kind h

theorem Token.Located.SameToken.text_eq {t u : Located} (h : t.SameToken u) : t.text = u.text :=
  congrArg Token.text h

/-- The values of two phrases satisfy `post` if the phrases differ in the lines of their tokens only. -/
def Grammar.Agree : {α : Type} → Grammar R α → (α → α → Prop) → Prop
  | _, .token kinds, post => ∀ t u, t.SameToken u → t.kind ∈ kinds → post t u
  | _, .pure value, post => post value value
  | _, .map f g, post => g.Agree fun a b => post (f a) (f b)
  | _, .seq g h, post => g.Agree fun f k => h.Agree fun a b => post (f a) (k b)
  | _, .alt g h, post => g.Agree post ∧ h.Agree post
  | _, .many g, post =>
    ∃ each, g.Agree each ∧ ∀ as bs, List.Forall₂ each as bs → post as bs
  | _, .rule _, post => ∀ value, post value value

/-- The value of a phrase does not depend on lines. -/
def Grammar.Steady {α : Type} (g : Grammar R α) : Prop := g.Agree Eq

namespace Grammar

variable {α β : Type}

/-! ## Reading the condition off a grammar -/

theorem Agree.mono {g : Grammar R α} {post post' : α → α → Prop} (h : g.Agree post)
    (himp : ∀ a b, post a b → post' a b) : g.Agree post' := by
  induction g with
  | token kinds => exact fun t u htu hkind => himp t u (h t u htu hkind)
  | pure value => exact himp value value h
  | map f g ih => exact ih h fun a b => himp (f a) (f b)
  | seq g k ihg ihk => exact ihg h fun f f' hf => ihk hf fun a b => himp (f a) (f' b)
  | alt g k ihg ihk => exact ⟨ihg h.1 himp, ihk h.2 himp⟩
  | many g ih =>
    obtain ⟨each, heach, hall⟩ := h
    exact ⟨each, heach, fun as bs hvalues => himp as bs (hall as bs hvalues)⟩
  | rule r => exact fun value => himp value value (h value)

theorem agree_of_forall (g : Grammar R α) {post : α → α → Prop} (h : ∀ a b, post a b) :
    g.Agree post := by
  induction g with
  | token kinds => exact fun t u _ _ => h t u
  | pure value => exact h value value
  | map f g ih => exact ih fun a b => h (f a) (f b)
  | seq g k ihg ihk => exact ihg fun f f' => ihk fun a b => h (f a) (f' b)
  | alt g k ihg ihk => exact ⟨ihg h, ihk h⟩
  | many g ih => exact ⟨fun _ _ => True, ih fun _ _ => trivial, fun as bs _ => h as bs⟩
  | rule r => exact fun value => h value value

section

variable {g : Grammar R α} {rel : α → α → Prop} {post : β → β → Prop}

theorem agree_token (kinds : List Kind) :
    (token kinds : Grammar R Located).Agree Token.Located.SameToken := fun _ _ h _ => h

theorem Agree.map {f : α → β} (hg : g.Agree rel) (hf : ∀ a b, rel a b → post (f a) (f b)) :
    (f <$> g).Agree post := by
  show g.Agree _
  exact hg.mono hf

theorem Agree.seq {k : Grammar R (α → β)}
    (hk : k.Agree fun f f' => ∀ a b, rel a b → post (f a) (f' b)) (hg : g.Agree rel) :
    (k <*> g).Agree post := by
  show k.Agree _
  exact hk.mono fun f f' hf => hg.mono hf

/-- What stands in front without a value may differ. -/
theorem Agree.right {k : Grammar R β} (hg : g.Agree rel) : (k *> g).Agree rel :=
  agree_of_forall k fun _ _ => hg

theorem Agree.left {k : Grammar R β} (hg : g.Agree rel) : (g <* k).Agree rel := by
  show g.Agree _
  exact hg.mono fun _ _ h => agree_of_forall k fun _ _ => h

theorem Agree.orElse {k : Grammar R α} (hg : g.Agree rel) (hk : k.Agree rel) : (g <|> k).Agree rel :=
  ⟨hg, hk⟩

theorem Agree.many (hg : g.Agree rel) : g.many.Agree (List.Forall₂ rel) := ⟨rel, hg, fun _ _ h => h⟩

theorem Agree.many1 (hg : g.Agree rel) : g.many1.Agree (List.Forall₂ rel) := by
  refine .seq (.map hg ?_) hg.many
  exact fun a b hab as bs hmore => .cons hab hmore

theorem Agree.opt (hg : g.Agree rel) : (opt g).Agree (Option.Rel rel) := by
  refine .orElse (.map hg ?_) .none
  exact fun a b hab => .some hab

theorem Agree.between (hg : g.Agree rel) (opening closing : Punctuator) :
    (between opening closing g).Agree rel := hg.right.left

end

section

variable {g : Grammar R α}

theorem steady_rule (r : R α) : (rule r).Steady := fun _ => rfl

theorem Steady.map {f : α → β} (hg : g.Steady) : (f <$> g).Steady :=
  Agree.map hg fun _ _ h => congrArg f h

theorem Steady.seq {k : Grammar R (α → β)} (hk : k.Steady) (hg : g.Steady) : (k <*> g).Steady := by
  refine Agree.seq (Agree.mono hk ?_) hg
  rintro f _ rfl a _ rfl
  rfl

theorem Steady.right {k : Grammar R β} (hg : g.Steady) : (k *> g).Steady := Agree.right hg

theorem Steady.left {k : Grammar R β} (hg : g.Steady) : (g <* k).Steady := Agree.left hg

theorem Steady.orElse {k : Grammar R α} (hg : g.Steady) (hk : k.Steady) : (g <|> k).Steady := ⟨hg, hk⟩

theorem Steady.many (hg : g.Steady) : g.many.Steady :=
  Agree.mono (Agree.many hg) fun _ _ h => List.forall₂_eq_eq_eq ▸ h

theorem Steady.many1 (hg : g.Steady) : g.many1.Steady := hg.map.seq hg.many

theorem Steady.opt (hg : g.Steady) : (opt g).Steady := hg.map.orElse rfl

theorem Steady.between (hg : g.Steady) (opening closing : Punctuator) :
    (between opening closing g).Steady := hg.right.left

end

end Grammar

/-! ## Outcomes that agree -/

/-- Two outcomes of the same kind: values in one relation, or errors in another. -/
inductive Alike {ε α : Type} (fail : ε → ε → Prop) (post : α → α → Prop) :
    Except ε α → Except ε α → Prop where
  | ok {a b : α} (h : post a b) : Alike fail post (.ok a) (.ok b)
  | error {e e' : ε} (h : fail e e') : Alike fail post (.error e) (.error e')

theorem Alike.mono {ε α : Type} {fail : ε → ε → Prop} {post post' : α → α → Prop} {x y : Except ε α}
    (h : Alike fail post x y) (himp : ∀ a b, post a b → post' a b) : Alike fail post' x y := by
  cases h with
  | ok h => exact .ok (himp _ _ h)
  | error h => exact .error h

theorem Alike.bind {ε α β : Type} {fail : ε → ε → Prop} {post : α → α → Prop} {post' : β → β → Prop}
    {x y : Except ε α} {f k : α → Except ε β} (h : Alike fail post x y)
    (hnext : ∀ a b, post a b → Alike fail post' (f a) (k b)) :
    Alike fail post' (x >>= f) (y >>= k) := by
  cases h with
  | ok h => exact hnext _ _ h
  | error h => exact .error h

/-- The same tokens, perhaps on other lines. -/
abbrev SameTokens : List Located → List Located → Prop := List.Forall₂ Token.Located.SameToken

/-- From the same tokens the parser gets values in the relation `post`, or fails at the same place. -/
def Parser.Agree {α : Type} (p : Parser α) (post : α → α → Prop) : Prop :=
  ∀ tokens tokens', SameTokens tokens tokens' →
    Alike SameTokens (fun x y => post x.1 y.1 ∧ SameTokens x.2 y.2) (p tokens) (p tokens')

namespace Parser

variable {α : Type}

theorem next_eq {accepts : Kind → Bool} {tokens tokens' : List Located}
    (h : SameTokens tokens tokens') : next accepts tokens = next accepts tokens' := by
  cases h with
  | nil => rfl
  | cons htu more => rw [next, next, htu.kind_eq]

theorem token_agree (kinds : List Kind) :
    (token kinds).Agree fun t u => t.SameToken u ∧ t.kind ∈ kinds := by
  intro tokens tokens' h
  cases h with
  | nil => exact .error .nil
  | @cons t u tokens tokens' htu more =>
    rw [token, token, ← htu.kind_eq]
    split
    · next hkind => exact .ok ⟨⟨htu, by simpa using hkind⟩, more⟩
    · exact .error (.cons htu more)

theorem many_agree {accepts : Kind → Bool} {p : Parser α} {each : α → α → Prop} (hp : p.Agree each)
    {bound bound' : List Located} (hbound : bound.length = bound'.length) {tokens tokens' : List Located}
    (h : SameTokens tokens tokens') :
    Alike SameTokens (fun x y => List.Forall₂ each x.1 y.1 ∧ SameTokens x.2 y.2)
      (many accepts p bound tokens) (many accepts p bound' tokens') := by
  induction bound generalizing bound' tokens tokens' with
  | nil =>
    obtain rfl := List.length_eq_zero_iff.1 hbound.symm
    exact .ok ⟨.nil, h⟩
  | cons t bound ih =>
    obtain ⟨u, bound', rfl⟩ := List.exists_cons_of_length_pos (l := bound') (by simp [← hbound])
    rw [many, many, next_eq h]
    split
    · refine (hp _ _ h).bind fun x y hxy => ?_
      refine (ih (by simpa using hbound) hxy.2).bind fun xs ys hmore => ?_
      exact .ok ⟨.cons hxy.1 hmore.1, hmore.2⟩
    · exact .ok ⟨.nil, h⟩

end Parser

namespace Language

variable {L : Language R} {α : Type}

/-- Parsers of rules that do not depend on lines make parsers of grammars that keep to the condition. -/
theorem parser_agree {call : {α : Type} → R α → Parser α}
    (hcall : ∀ {α : Type} (r : R α), (call r).Agree Eq) {g : Grammar R α} {post : α → α → Prop}
    (hg : g.Agree post) : (L.parser call g).Agree post := by
  intro tokens tokens' h
  induction g generalizing tokens tokens' with
  | token kinds =>
    rw [parser]
    refine (Parser.token_agree kinds _ _ h).mono fun x y hxy => ?_
    exact ⟨hg _ _ hxy.1.1 hxy.1.2, hxy.2⟩
  | pure v => exact .ok ⟨hg, h⟩
  | map f g ih =>
    rw [parser]
    exact (ih hg _ _ h).bind fun x y hxy => .ok hxy
  | seq g k ihg ihk =>
    rw [parser]
    refine (ihg hg _ _ h).bind fun x y hxy => ?_
    exact (ihk hxy.1 _ _ hxy.2).bind fun v w hvw => .ok hvw
  -- The next tokens are of one kind, and so the same alternative is taken.
  | alt g k ihg ihk =>
    rw [parser]
    dsimp only
    rw [Parser.next_eq h]
    split
    · exact ihg hg.1 _ _ h
    · exact ihk hg.2 _ _ h
  | many g ih =>
    obtain ⟨each, heach, hall⟩ := hg
    have hp : (L.parser call g).Agree each := fun tokens tokens' h => ih heach _ _ h
    rw [parser]
    dsimp only
    refine (Parser.many_agree hp h.length_eq h).mono fun x y hxy => ?_
    exact ⟨hall _ _ hxy.1, hxy.2⟩
  | rule r =>
    rw [parser]
    refine (hcall r _ _ h).mono fun x y hxy => ⟨?_, hxy.2⟩
    rw [hxy.1]
    exact hg y.1

theorem ruleParser_agree (hbody : ∀ {α : Type} (r : R α), (L.body r).Steady) (depth : Nat) (r : R α) :
    (L.ruleParser depth r).Agree Eq := by
  induction depth generalizing α with
  | zero => exact fun tokens tokens' h => .error h
  | succ depth ih => exact parser_agree (fun r => ih r) (hbody r)

/-- A language whose rules do not depend on lines reads the same tokens alike. -/
theorem parse_agree (hbody : ∀ {α : Type} (r : R α), (L.body r).Steady) {start : Grammar R α}
    {post : α → α → Prop} (hstart : start.Agree post) {tokens tokens' : List Located}
    (h : SameTokens tokens tokens') :
    Alike SameTokens post (L.parse start tokens) (L.parse start tokens') := by
  rw [parse, parse, ← h.length_eq]
  have houtcome :=
    parser_agree (L := L) (fun r => ruleParser_agree hbody (tokens.length + 1) r) hstart _ _ h
  generalize L.parser (L.ruleParser (tokens.length + 1)) start tokens = x at houtcome ⊢
  generalize L.parser (L.ruleParser (tokens.length + 1)) start tokens' = y at houtcome ⊢
  cases houtcome with
  | error hrest => exact .error hrest
  | @ok a b hab =>
    obtain ⟨a, rest⟩ := a
    obtain ⟨b, rest'⟩ := b
    obtain ⟨hvalue, hrest⟩ := hab
    cases hrest with
    | nil => exact .ok hvalue
    | cons ht hmore => exact .error (.cons ht hmore)

end Language

end FragmentShapes
