import FragmentShapes.Grammar.Predictive
import FragmentShapes.Proofs.Grammar.KindSet
import FragmentShapes.Proofs.Grammar.Reading

/-!
# What a phrase can look like

A preview says of each rule whether its phrases can be empty, with which tokens they can begin, and with
which token a phrase that is complete could have gone on. `Grammar.isDecided` is a check that these
are enough to read phrases of a grammar in one way only, by one token of lookahead or by two.

The main statement is `Grammar.shows_of_reads`: if a preview is right about the rules, then it is right
about what a grammar over them reads. Where a phrase ends, and which phrases cannot begin one text, is
said by the lemmas on `Grammar.Ends`.
-/

namespace FragmentShapes

open Token (Kind Located)

/-- What is foreseen of the phrases of rules. -/
structure Preview (R : Type → Type) where
  /-- A phrase can be empty. -/
  nullable : {α : Type} → R α → Bool
  /-- The kinds of tokens with which a phrase can begin. -/
  firsts : {α : Type} → R α → KindSet
  /-- The kinds of tokens that are phrases by themselves. -/
  singles : {α : Type} → R α → KindSet
  /-- The kinds of tokens that can be second, behind a first one of some kind. -/
  seconds : {α : Type} → R α → Kind → KindSet
  /-- The kinds of tokens with which a phrase that is complete could have gone on. -/
  extensions : {α : Type} → R α → KindSet

namespace Grammar

variable {R : Type → Type} {α β : Type}

def mayBeEmpty (v : Preview R) : {α : Type} → Grammar R α → Bool
  | _, token _ => false
  | _, pure _ => true
  | _, map _ g => g.mayBeEmpty v
  | _, seq g h => g.mayBeEmpty v && h.mayBeEmpty v
  | _, alt g h => g.mayBeEmpty v || h.mayBeEmpty v
  | _, many _ => true
  | _, rule r => v.nullable r

def firsts (v : Preview R) : {α : Type} → Grammar R α → KindSet
  | _, token kinds => .ofList kinds
  | _, pure _ => .empty
  | _, map _ g => g.firsts v
  | _, seq g h => (g.firsts v).union ((h.firsts v).only (g.mayBeEmpty v))
  | _, alt g h => (g.firsts v).union (h.firsts v)
  | _, many g => g.firsts v
  | _, rule r => v.firsts r

def singles (v : Preview R) : {α : Type} → Grammar R α → KindSet
  | _, token kinds => .ofList kinds
  | _, pure _ => .empty
  | _, map _ g => g.singles v
  | _, seq g h => ((g.singles v).only (h.mayBeEmpty v)).union ((h.singles v).only (g.mayBeEmpty v))
  | _, alt g h => (g.singles v).union (h.singles v)
  | _, many g => g.singles v
  | _, rule r => v.singles r

def seconds (v : Preview R) (k : Kind) : {α : Type} → Grammar R α → KindSet
  | _, token _ => .empty
  | _, pure _ => .empty
  | _, map _ g => g.seconds v k
  | _, seq g h => ((g.seconds v k).union ((h.firsts v).only ((g.singles v).contains k))).union
      ((h.seconds v k).only (g.mayBeEmpty v))
  | _, alt g h => (g.seconds v k).union (h.seconds v k)
  | _, many g => (g.seconds v k).union ((g.firsts v).only ((g.singles v).contains k))
  | _, rule r => v.seconds r k

def extensions (v : Preview R) : {α : Type} → Grammar R α → KindSet
  | _, token _ => .empty
  | _, pure _ => .empty
  | _, map _ g => g.extensions v
  | _, seq g h => (h.extensions v).union ((g.extensions v).only (h.mayBeEmpty v))
  | _, alt g h => ((g.extensions v).union (h.extensions v)).union ((g.firsts v).only (h.mayBeEmpty v))
  | _, many g => (g.extensions v).union (g.firsts v)
  | _, rule r => v.extensions r

/-- The first token tells phrases of two grammars apart, or, if `two` is set, the first two do. -/
def areApart (v : Preview R) (two : Bool) (g : Grammar R α) (h : Grammar R β) : Bool :=
  (g.firsts v).disjoint (h.firsts v) ||
    (two && Kind.all.all fun k => !((g.firsts v).contains k && (h.firsts v).contains k) ||
      (!(g.singles v).contains k && !(h.singles v).contains k &&
        (g.seconds v k).disjoint (h.seconds v k)))

/-- At each place one token, or two, decide how a phrase goes on. -/
def isDecided (v : Preview R) (two : Bool) : {α : Type} → Grammar R α → Bool
  | _, token _ => true
  | _, pure _ => true
  | _, map _ g => g.isDecided v two
  | _, seq g h =>
    g.isDecided v two && h.isDecided v two && (g.extensions v).disjoint (h.firsts v)
  | _, alt g h =>
    g.isDecided v two && h.isDecided v two && !g.mayBeEmpty v && areApart v two g h
  | _, many g =>
    g.isDecided v two && !g.mayBeEmpty v && (g.extensions v).disjoint (g.firsts v)
  | _, rule _ => true

section

variable {v : Preview R} {two : Bool} {g k : Grammar R α} {f : Grammar R (α → β)}

attribute [local simp] isDecided

theorem isDecided_seq : (Grammar.seq f g).isDecided v two = true ↔
    (f.isDecided v two = true ∧ g.isDecided v two = true) ∧
      (f.extensions v).disjoint (g.firsts v) = true := by
  simp

theorem isDecided_alt : (Grammar.alt g k).isDecided v two = true ↔
    ((g.isDecided v two = true ∧ k.isDecided v two = true) ∧ g.mayBeEmpty v = false) ∧
      areApart v two g k = true := by
  simp

theorem isDecided_many : g.many.isDecided v two = true ↔
    (g.isDecided v two = true ∧ g.mayBeEmpty v = false) ∧
      (g.extensions v).disjoint (g.firsts v) = true := by
  simp

end

/-! ## Previews are right -/

/-- The tokens look as a phrase of the grammar can look. -/
def Shows (v : Preview R) (g : Grammar R α) : List Located → Prop
  | [] => g.mayBeEmpty v = true
  | [t] => (g.firsts v).contains t.kind = true ∧ (g.singles v).contains t.kind = true
  | t :: u :: _ =>
    (g.firsts v).contains t.kind = true ∧ (g.seconds v t.kind).contains u.kind = true

section

variable {v : Preview R} {g k : Grammar R α} {tokens front back : List Located}

attribute [local simp] Shows mayBeEmpty firsts singles seconds

theorem Shows.first {t : Located} (h : g.Shows v (t :: tokens)) :
    (g.firsts v).contains t.kind = true := by
  cases tokens with
  | nil => exact h.1
  | cons u tokens => exact h.1

theorem Shows.ne_nil (h : g.Shows v tokens) (hne : g.mayBeEmpty v = false) : tokens ≠ [] := by
  rintro rfl
  exact Bool.false_ne_true (hne.symm.trans h)

theorem Shows.seq {f : Grammar R (α → β)} (hf : f.Shows v front) (hg : g.Shows v back) :
    (Grammar.seq f g).Shows v (front ++ back) := by
  match front, back with
  | [], [] | [], [_] | [], _ :: _ :: _ | [_], [] | _ :: _ :: _, _ =>
    simp_all
  | [t], u :: back =>
    have hu := hg.first
    simp_all

theorem Shows.left (hg : g.Shows v tokens) : (Grammar.alt g k).Shows v tokens := by
  match tokens with
  | [] | [_] | _ :: _ :: _ => simp_all

theorem Shows.right (hk : k.Shows v tokens) : (Grammar.alt g k).Shows v tokens := by
  match tokens with
  | [] | [_] | _ :: _ :: _ => simp_all

theorem Shows.many (hg : g.Shows v front) (hback : g.many.Shows v back) :
    g.many.Shows v (front ++ back) := by
  match front, back with
  | [], _ => exact hback
  | [t], [] => simp_all
  | [t], u :: back =>
    have hu := hback.first
    simp_all
  | _ :: _ :: _, _ => simp_all

theorem shows_of_reads {E : Type} {ρ : {α : Type} → R α → Reading E α}
    (hρ : ∀ {α : Type} {r : R α} {tokens a faults}, ρ r tokens a faults → (rule r).Shows v tokens)
    {a : α} {faults : List E} (h : g.reads ρ tokens a faults) : g.Shows v tokens := by
  induction g generalizing tokens faults with
  | token kinds =>
    obtain ⟨rfl, hkind, rfl⟩ := h
    simpa using hkind
  | pure value =>
    obtain ⟨rfl, rfl, rfl⟩ := h
    rfl
  | map f g ih =>
    obtain ⟨b, hb, rfl⟩ := h
    have := ih hb
    match tokens with
    | [] | [_] | _ :: _ :: _ => exact this
  | seq g h ihg ihh =>
    obtain ⟨front, f, before, back, b, behind, hf, hb, rfl, rfl, rfl⟩ := h
    exact (ihg hf).seq (ihh hb)
  | alt g h ihg ihh =>
    obtain hg | hh := h
    · exact (ihg hg).left
    · exact (ihh hh).right
  | many g ih =>
    induction h with
    | nil => rfl
    | cons first rest ihrest => exact (ih first).many ihrest
  | rule r => exact hρ h

end

/-! ## Where a phrase ends -/

/-- The token behind a phrase, if there is one, could not have made it longer. -/
def Ends (v : Preview R) (g : Grammar R α) (rest : List Located) : Prop :=
  ∀ t ∈ rest.head?, (g.extensions v).contains t.kind = false

section

variable {v : Preview R} {g k : Grammar R α} {f : Grammar R (α → β)}
  {tokens tokens' rest rest' : List Located} {kind : Kind}

attribute [local simp] extensions

theorem not_extends_seq : ((Grammar.seq f g).extensions v).contains kind = false ↔
    (g.extensions v).contains kind = false ∧
      (g.mayBeEmpty v = true → (f.extensions v).contains kind = false) := by
  simp

theorem not_extends_alt : ((Grammar.alt g k).extensions v).contains kind = false ↔
    ((g.extensions v).contains kind = false ∧ (k.extensions v).contains kind = false) ∧
      (k.mayBeEmpty v = true → (g.firsts v).contains kind = false) := by
  simp

theorem not_extends_many : (g.many.extensions v).contains kind = false ↔
    (g.extensions v).contains kind = false ∧ (g.firsts v).contains kind = false := by
  simp

theorem Ends.second (hrest : (Grammar.seq f g).Ends v rest) : g.Ends v rest :=
  fun t ht => (not_extends_seq.1 (hrest t ht)).1

/-- Where a phrase is followed by one of another grammar, it ends. -/
theorem Ends.before {h : Grammar R β} (hrest : tokens = [] → h.Ends v rest)
    (hdisjoint : (h.extensions v).disjoint (g.firsts v) = true) (htokens : g.Shows v tokens) :
    h.Ends v (tokens ++ rest) := by
  cases tokens with
  | nil => exact hrest rfl
  | cons t tokens =>
    intro u hu
    obtain rfl : t = u := Option.some.inj hu
    by_contra hextension
    have hfirst := KindSet.not_of_disjoint hdisjoint (Bool.of_not_eq_false hextension)
    exact Bool.false_ne_true (hfirst.symm.trans htokens.first)

theorem Ends.first (hrest : (Grammar.seq f g).Ends v rest)
    (hdisjoint : (f.extensions v).disjoint (g.firsts v) = true) (htokens : g.Shows v tokens) :
    f.Ends v (tokens ++ rest) := by
  refine Ends.before (fun hnil t ht => ?_) hdisjoint htokens
  have hempty : g.mayBeEmpty v = true := by rwa [hnil] at htokens
  exact (not_extends_seq.1 (hrest t ht)).2 hempty

theorem Ends.left (hrest : (Grammar.alt g k).Ends v rest) : g.Ends v rest :=
  fun t ht => (not_extends_alt.1 (hrest t ht)).1.1

theorem Ends.right (hrest : (Grammar.alt g k).Ends v rest) : k.Ends v rest :=
  fun t ht => (not_extends_alt.1 (hrest t ht)).1.2

/-- Behind an empty phrase of the second alternative the first does not begin. -/
theorem Ends.not_first {t : Located} (hrest : (Grammar.alt g k).Ends v (t :: rest))
    (hempty : k.mayBeEmpty v = true) : (g.firsts v).contains t.kind = false :=
  (not_extends_alt.1 (hrest t rfl)).2 hempty

theorem Ends.item (hrest : g.many.Ends v rest)
    (hdisjoint : (g.extensions v).disjoint (g.firsts v) = true) (htokens : g.many.Shows v tokens) :
    g.Ends v (tokens ++ rest) := by
  refine Ends.before (g := g.many) (fun _ t ht => ?_) hdisjoint htokens
  exact (not_extends_many.1 (hrest t ht)).1

/-- Behind a repetition no further phrase begins. -/
theorem Ends.not_more {t : Located} (hrest : g.many.Ends v (t :: rest)) :
    (g.firsts v).contains t.kind = false :=
  (not_extends_many.1 (hrest t rfl)).2

/-! ## Phrases that do not begin one text -/

/-- A phrase that is not empty is not at the head of a text that begins in another way. -/
theorem Shows.append_ne (h : g.Shows v tokens) (hne : g.mayBeEmpty v = false)
    (hrest' : ∀ t ∈ rest'.head?, (g.firsts v).contains t.kind = false) : tokens ++ rest ≠ rest' := by
  rintro rfl
  obtain ⟨t, tokens, rfl⟩ := List.exists_cons_of_ne_nil (h.ne_nil hne)
  exact Bool.false_ne_true ((hrest' t rfl).symm.trans h.first)

/-- Two phrases, not empty, of grammars that are apart do not begin one text. -/
theorem Shows.append_ne_append {two : Bool} (hg : g.Shows v tokens) (hk : k.Shows v tokens')
    (hapart : areApart v two g k = true) (hne : tokens ≠ []) (hne' : tokens' ≠ []) :
    tokens ++ rest ≠ tokens' ++ rest' := by
  obtain ⟨t, tokens, rfl⟩ := List.exists_cons_of_ne_nil hne
  obtain ⟨t', tokens', rfl⟩ := List.exists_cons_of_ne_nil hne'
  intro htexts
  obtain ⟨rfl, hbehind⟩ := List.cons.inj htexts
  rw [areApart, Bool.or_eq_true, Bool.and_eq_true] at hapart
  obtain hdisjoint | ⟨_, hall⟩ := hapart
  · exact Bool.false_ne_true ((KindSet.not_of_disjoint hdisjoint hg.first).symm.trans hk.first)
  · have htwo := List.all_eq_true.1 hall t.kind (Kind.mem_all _)
    simp only [hg.first, hk.first, Bool.and_self, Bool.not_true, Bool.false_or, Bool.and_eq_true,
      Bool.not_eq_true'] at htwo
    obtain ⟨⟨hsingle, hsingle'⟩, hseconds⟩ := htwo
    cases tokens with
    | nil => exact Bool.false_ne_true (hsingle.symm.trans hg.2)
    | cons u tokens =>
      cases tokens' with
      | nil => exact Bool.false_ne_true (hsingle'.symm.trans hk.2)
      | cons u' tokens' =>
        obtain ⟨rfl, _⟩ := List.cons.inj hbehind
        exact Bool.false_ne_true ((KindSet.not_of_disjoint hseconds hg.2).symm.trans hk.2)

/-- Phrases of two alternatives do not begin one text, if each ends there. -/
theorem Ends.append_ne_append {two : Bool} (hrest' : (Grammar.alt g k).Ends v rest')
    (hne : g.mayBeEmpty v = false) (hapart : areApart v two g k = true) (hg : g.Shows v tokens)
    (hk : k.Shows v tokens') : tokens ++ rest ≠ tokens' ++ rest' := by
  by_cases hne' : tokens' = []
  · subst hne'
    refine hg.append_ne hne fun t ht => ?_
    cases rest' with
    | nil => cases ht
    | cons u rest' =>
      obtain rfl : u = t := Option.some.inj ht
      exact hrest'.not_first hk
  · exact hg.append_ne_append hk hapart (hg.ne_nil hne) hne'

/-- A text in which a further phrase begins does not end a repetition. -/
theorem Ends.append_ne (hrest' : g.many.Ends v rest') (hne : g.mayBeEmpty v = false)
    (hg : g.Shows v tokens) : tokens ++ rest ≠ rest' := by
  refine hg.append_ne hne fun t ht => ?_
  cases rest' with
  | nil => cases ht
  | cons u rest' =>
    obtain rfl : u = t := Option.some.inj ht
    exact hrest'.not_more

end

end Grammar

end FragmentShapes
