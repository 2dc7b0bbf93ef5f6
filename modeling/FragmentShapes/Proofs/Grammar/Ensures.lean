import FragmentShapes.Grammar.Predictive
import Mathlib.Tactic.Common

/-!
# What the values of phrases have in common

`Grammar.Ensures P Q g post` is a condition on the grammar alone: whenever the tokens of a phrase of
`g` satisfy `P` and the values of its rules satisfy `Q`, the value of the phrase satisfies `post`. It is
read off the grammar from the end to the start.

The main statement is `parse_ensures`: if the body of each rule ensures what `Q` says of the rule, then
every value that a parser of the language returns is as its grammar ensures.
-/

namespace FragmentShapes

open Token (Kind Located)

variable {R : Type → Type}

/-- The value of every phrase of the grammar satisfies `post`, provided that its tokens satisfy `P` and
the values of its rules satisfy `Q`. -/
def Grammar.Ensures (P : Located → Prop) (Q : {α : Type} → R α → α → Prop) :
    {α : Type} → Grammar R α → (α → Prop) → Prop
  | _, .token kinds, post => ∀ t, P t → t.kind ∈ kinds → post t
  | _, .pure value, post => post value
  | _, .map f g, post => g.Ensures P Q fun value => post (f value)
  | _, .seq g h, post => g.Ensures P Q fun f => h.Ensures P Q fun value => post (f value)
  | _, .alt g h, post => g.Ensures P Q post ∧ h.Ensures P Q post
  | _, .many g, post =>
    ∃ each, g.Ensures P Q each ∧ ∀ values, (∀ value ∈ values, each value) → post values
  | _, .rule r, post => ∀ value, Q r value → post value

/-- From tokens that satisfy `P` the parser gets a value that satisfies `post`, and leaves such tokens. -/
def Parser.Ensures {α : Type} (P : Located → Prop) (p : Parser α) (post : α → Prop) : Prop :=
  ∀ tokens value rest, (∀ t ∈ tokens, P t) → p tokens = .ok (value, rest) →
    post value ∧ ∀ t ∈ rest, P t

section

variable {P : Located → Prop} {Q : {α : Type} → R α → α → Prop} {α β : Type}

namespace Grammar

/-! ## Reading the condition off a grammar -/

theorem Ensures.mono {g : Grammar R α} {post post' : α → Prop} (h : g.Ensures P Q post)
    (himp : ∀ value, post value → post' value) : g.Ensures P Q post' := by
  induction g with
  | token kinds => exact fun t ht hkind => himp t (h t ht hkind)
  | pure value => exact himp value h
  | map f g ih => exact ih h fun value => himp (f value)
  | seq g h' ihg ihh => exact ihg h fun f hf => ihh hf fun value => himp (f value)
  | alt g h' ihg ihh => exact ⟨ihg h.1 himp, ihh h.2 himp⟩
  | many g ih =>
    obtain ⟨each, heach, hall⟩ := h
    exact ⟨each, heach, fun values hvalues => himp values (hall values hvalues)⟩
  | rule r => exact fun value hvalue => himp value (h value hvalue)

theorem ensures_of_forall (g : Grammar R α) {post : α → Prop} (h : ∀ value, post value) :
    g.Ensures P Q post := by
  induction g with
  | token kinds => exact fun t _ _ => h t
  | pure value => exact h value
  | map f g ih => exact ih fun value => h (f value)
  | seq g h' ihg ihh => exact ihg fun f => ihh fun value => h (f value)
  | alt g h' ihg ihh => exact ⟨ihg h, ihh h⟩
  | many g ih => exact ⟨fun _ => True, ih fun _ => trivial, fun values _ => h values⟩
  | rule r => exact fun value _ => h value

section

variable {g : Grammar R α} {post : α → Prop}

@[simp] theorem ensures_pure {value : α} :
    (pure value : Grammar R α).Ensures P Q post ↔ post value := Iff.rfl

@[simp] theorem ensures_map {f : α → β} {post : β → Prop} :
    (f <$> g).Ensures P Q post ↔ g.Ensures P Q fun value => post (f value) := Iff.rfl

@[simp] theorem ensures_seq {g : Grammar R (α → β)} {h : Grammar R α} {post : β → Prop} :
    (g <*> h).Ensures P Q post ↔ g.Ensures P Q fun f => h.Ensures P Q fun value => post (f value) :=
  Iff.rfl

@[simp] theorem ensures_seqRight {h : Grammar R β} {post : β → Prop} :
    (g *> h).Ensures P Q post ↔ g.Ensures P Q fun _ => h.Ensures P Q post := Iff.rfl

@[simp] theorem ensures_orElse {h : Grammar R α} :
    (g <|> h).Ensures P Q post ↔ g.Ensures P Q post ∧ h.Ensures P Q post := Iff.rfl

/-- Every value of a repetition is one of the repeated phrase. -/
theorem ensures_many {each : α → Prop} (h : g.Ensures P Q each) :
    g.many.Ensures P Q fun values => ∀ value ∈ values, each value := ⟨each, h, fun _ hall => hall⟩

theorem ensures_many1 {each : α → Prop} (h : g.Ensures P Q each) :
    g.many1.Ensures P Q fun values => ∀ value ∈ values, each value := by
  refine h.mono fun value hvalue => ⟨each, h, fun values hvalues => ?_⟩
  simpa using ⟨hvalue, hvalues⟩

end

end Grammar

/-! ## Parsers keep to the condition -/

theorem exists_of_bind_eq_ok {ε : Type} {x : Except ε α} {f : α → Except ε β} {b : β}
    (h : (x >>= f) = .ok b) : ∃ a, x = .ok a ∧ f a = .ok b := by
  cases x with
  | error e => cases h
  | ok a => exact ⟨a, rfl, h⟩

namespace Parser

theorem token_ensures (kinds : List Kind) :
    (token kinds).Ensures P fun t => P t ∧ t.kind ∈ kinds := by
  intro tokens value rest htokens h
  cases tokens with
  | nil => cases h
  | cons t tokens =>
    rw [token] at h
    split_ifs at h with hkind
    cases h
    exact ⟨⟨htokens value (by simp), by simpa using hkind⟩, fun u hu => htokens u (by simp [hu])⟩

theorem many_ensures {accepts : Kind → Bool} {p : Parser α} {each : α → Prop}
    (hp : p.Ensures P each) (bound : List Located) :
    (many accepts p bound).Ensures P fun values => ∀ value ∈ values, each value := by
  induction bound with
  | nil =>
    intro tokens values rest htokens h
    cases h
    exact ⟨by simp, htokens⟩
  | cons _ bound ih =>
    intro tokens values rest htokens h
    rw [many] at h
    split_ifs at h
    · obtain ⟨⟨value, more⟩, hvalue, h⟩ := exists_of_bind_eq_ok h
      obtain ⟨⟨others, last⟩, hothers, h⟩ := exists_of_bind_eq_ok h
      cases h
      obtain ⟨hfirst, hmore⟩ := hp _ _ _ htokens hvalue
      obtain ⟨hrest, hlast⟩ := ih _ _ _ hmore hothers
      exact ⟨by simpa using ⟨hfirst, hrest⟩, hlast⟩
    · cases h
      exact ⟨by simp, htokens⟩

end Parser

namespace Language

variable {L : Language R}

/-- Parsers of rules that keep to `Q` make parsers of grammars that keep to what is ensured. -/
theorem parser_ensures {call : {α : Type} → R α → Parser α}
    (hcall : ∀ {α : Type} (r : R α), (call r).Ensures P (Q r)) {g : Grammar R α} {post : α → Prop}
    (hg : g.Ensures P Q post) : (L.parser call g).Ensures P post := by
  intro tokens value rest htokens h
  -- Each part starts where the one before it stopped, on tokens that still keep to the condition.
  induction g generalizing tokens rest with
  | token kinds =>
    obtain ⟨⟨ht, hkind⟩, hrest⟩ := Parser.token_ensures kinds _ _ _ htokens h
    exact ⟨hg value ht hkind, hrest⟩
  | pure v =>
    cases h
    exact ⟨hg, htokens⟩
  | map f g ih =>
    rw [parser] at h
    obtain ⟨⟨v, more⟩, hv, h⟩ := exists_of_bind_eq_ok h
    cases h
    exact ih hg _ _ _ htokens hv
  | seq g h' ihg ihh =>
    rw [parser] at h
    obtain ⟨⟨f, more⟩, hf, h⟩ := exists_of_bind_eq_ok h
    obtain ⟨⟨v, last⟩, hv, h⟩ := exists_of_bind_eq_ok h
    cases h
    obtain ⟨hnext, hmore⟩ := ihg hg _ _ _ htokens hf
    exact ihh hnext _ _ _ hmore hv
  | alt g h' ihg ihh =>
    rw [parser] at h
    dsimp only at h
    split_ifs at h
    · exact ihg hg.1 _ _ _ htokens h
    · exact ihh hg.2 _ _ _ htokens h
  | many g ih =>
    obtain ⟨each, heach, hall⟩ := hg
    have hp : (L.parser call g).Ensures P each := fun tokens value rest htokens h =>
      ih heach tokens value rest htokens h
    rw [parser] at h
    obtain ⟨hvalues, hrest⟩ := Parser.many_ensures hp tokens _ _ _ htokens h
    exact ⟨hall value hvalues, hrest⟩
  | rule r =>
    obtain ⟨hvalue, hrest⟩ := hcall r _ _ _ htokens h
    exact ⟨hg value hvalue, hrest⟩

theorem ruleParser_ensures (hbody : ∀ {α : Type} (r : R α), (L.body r).Ensures P Q (Q r))
    (depth : Nat) (r : R α) : (L.ruleParser depth r).Ensures P (Q r) := by
  induction depth generalizing α with
  | zero =>
    intro tokens value rest _ h
    cases h
  | succ depth ih => exact parser_ensures (fun r => ih r) (hbody r)

/-- A language whose rules keep to `Q` reads values of which all holds that the start phrase ensures. -/
theorem parse_ensures (hbody : ∀ {α : Type} (r : R α), (L.body r).Ensures P Q (Q r))
    {start : Grammar R α} {post : α → Prop} (hstart : start.Ensures P Q post)
    {tokens : List Located} (htokens : ∀ t ∈ tokens, P t) {value : α}
    (h : L.parse start tokens = .ok value) : post value := by
  rw [parse] at h
  split at h
  · next v hv =>
    cases h
    exact (parser_ensures (fun r => ruleParser_ensures hbody _ r) hstart _ _ _ htokens hv).1
  · cases h
  · cases h

end Language

end

end FragmentShapes
