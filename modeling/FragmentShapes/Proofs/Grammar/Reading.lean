import FragmentShapes.Grammar
import Mathlib.Tactic.Common

/-!
# What tokens a grammar reads

A reading relates tokens to a value and to what is rejected while the value is made. Readings are put
together as grammars are, and `Grammar.reads` is the reading of a grammar, given those of its rules.

The main statements are equations between readings. `Reading.map_seq`, `Reading.seq_map` and
`Reading.seq_seq` bring a row of parts into one form, `Reading.star_eq` takes a repetition apart, and those
on `Reading.tell` make what is rejected a part of the value, so that the other equations apply to it.
-/

namespace FragmentShapes

open Token (Kind Located)

/-- Tokens, the value that is made of them, and what is rejected on the way. -/
abbrev Reading (E α : Type) := List Located → α → List E → Prop

namespace Reading

variable {E α β γ : Type}

/-- One token of the listed kinds. -/
def token (kinds : List Kind) : Reading E Located := fun tokens t faults =>
  tokens = [t] ∧ t.kind ∈ kinds ∧ faults = []

/-- No token. -/
def pure (a : α) : Reading E α := fun tokens value faults => tokens = [] ∧ a = value ∧ faults = []

/-- The same tokens, with `f` of the value. -/
def map (f : α → β) (m : Reading E α) : Reading E β := fun tokens value faults =>
  ∃ a, m tokens a faults ∧ f a = value

/-- One reading behind the other. -/
def seq (m : Reading E (α → β)) (k : Reading E α) : Reading E β := fun tokens value faults =>
  ∃ front f before back a behind, m front f before ∧ k back a behind ∧
    front ++ back = tokens ∧ f a = value ∧ before ++ behind = faults

def alt (m k : Reading E α) : Reading E α := fun tokens value faults =>
  m tokens value faults ∨ k tokens value faults

/-- Any number of readings one behind the other. -/
inductive Star (m : Reading E α) : Reading E (List α) where
  | nil : Star m [] [] []
  | cons {front a before back as behind} (first : m front a before) (rest : Star m back as behind) :
      Star m (front ++ back) (a :: as) (before ++ behind)

/-- A reading or nothing. -/
def opt (m : Reading E α) : Reading E (Option α) := alt (map some m) (pure none)

/-- A reading, and what is rejected of its value. -/
def judge (rejects : α → List E) (m : Reading E α) : Reading E α := fun tokens value faults =>
  ∃ before, m tokens value before ∧ before ++ rejects value = faults

/-! ## Equations -/

@[simp] theorem map_map (f : α → β) (g : β → γ) (m : Reading E α) :
    map g (map f m) = map (g ∘ f) m := by
  funext tokens value faults
  simp [map]

@[simp] theorem map_id (m : Reading E α) : map id m = m := by
  funext tokens value faults
  simp [map]

@[simp] theorem map_pure (f : α → β) (a : α) : map f (pure a : Reading E α) = pure (f a) := by
  funext tokens value faults
  simp only [map, pure, eq_iff_iff]
  constructor
  · rintro ⟨_, ⟨htokens, rfl, hfaults⟩, hvalue⟩
    exact ⟨htokens, hvalue, hfaults⟩
  · rintro ⟨htokens, hvalue, hfaults⟩
    exact ⟨a, ⟨htokens, rfl, hfaults⟩, hvalue⟩

theorem map_alt (f : α → β) (m k : Reading E α) : map f (alt m k) = alt (map f m) (map f k) := by
  funext tokens value faults
  simp [map, alt, or_and_right, exists_or]

@[simp] theorem map_seq (f : β → γ) (m : Reading E (α → β)) (k : Reading E α) :
    map f (seq m k) = seq (map (f ∘ ·) m) k := by
  funext tokens value faults
  simp only [map, seq, eq_iff_iff]
  constructor
  · rintro ⟨_, ⟨front, g, before, back, a, behind, hm, hk, htokens, rfl, hfaults⟩, rfl⟩
    exact ⟨front, f ∘ g, before, back, a, behind, ⟨g, hm, rfl⟩, hk, htokens, rfl, hfaults⟩
  · rintro ⟨front, _, before, back, a, behind, ⟨g, hm, rfl⟩, hk, htokens, rfl, hfaults⟩
    exact ⟨g a, ⟨front, g, before, back, a, behind, hm, hk, htokens, rfl, hfaults⟩, rfl⟩

/-- A function of the second part can be applied together with the first. -/
@[simp] theorem seq_map (f : α → β) (m : Reading E (β → γ)) (k : Reading E α) :
    seq m (map f k) = seq (map (· ∘ f) m) k := by
  funext tokens value faults
  simp only [map, seq, eq_iff_iff]
  constructor
  · rintro ⟨front, g, before, back, _, behind, hm, ⟨a, hk, rfl⟩, htokens, rfl, hfaults⟩
    exact ⟨front, g ∘ f, before, back, a, behind, ⟨g, hm, rfl⟩, hk, htokens, rfl, hfaults⟩
  · rintro ⟨front, _, before, back, a, behind, ⟨g, hm, rfl⟩, hk, htokens, rfl, hfaults⟩
    exact ⟨front, g, before, back, f a, behind, hm, ⟨a, hk, rfl⟩, htokens, rfl, hfaults⟩

/-- Three parts are grouped to the left. -/
@[simp] theorem seq_seq {δ : Type} (m : Reading E (β → γ)) (k : Reading E (δ → β))
    (l : Reading E δ) : seq m (seq k l) = seq (seq (map (fun f g => f ∘ g) m) k) l := by
  funext tokens value faults
  simp only [map, seq, eq_iff_iff]
  constructor
  · rintro ⟨front, f, before, _, _, _, hm, ⟨middle, g, between, back, d, behind, hk, hl, rfl, rfl, rfl⟩,
      rfl, rfl, rfl⟩
    exact ⟨front ++ middle, f ∘ g, before ++ between, back, d, behind,
      ⟨front, _, before, middle, g, between, ⟨f, hm, rfl⟩, hk, rfl, rfl, rfl⟩, hl, by simp, rfl, by simp⟩
  · rintro ⟨_, _, _, back, d, behind, ⟨front, _, before, middle, g, between, ⟨f, hm, rfl⟩, hk, rfl, rfl,
      rfl⟩, hl, rfl, rfl, rfl⟩
    exact ⟨front, f, before, middle ++ back, g d, between ++ behind, hm,
      ⟨middle, g, between, back, d, behind, hk, hl, rfl, rfl, rfl⟩, by simp, rfl, by simp⟩

@[simp] theorem seq_pure (m : Reading E (α → β)) (a : α) : seq m (pure a) = map (· a) m := by
  funext tokens value faults
  simp only [map, seq, pure, eq_iff_iff]
  constructor
  · rintro ⟨front, f, before, _, _, _, hm, ⟨rfl, rfl, rfl⟩, rfl, rfl, rfl⟩
    exact ⟨f, by simpa using hm, rfl⟩
  · rintro ⟨f, hm, rfl⟩
    exact ⟨tokens, f, faults, [], a, [], hm, ⟨rfl, rfl, rfl⟩, by simp, rfl, by simp⟩

theorem seq_alt (m : Reading E (α → β)) (k l : Reading E α) :
    seq m (alt k l) = alt (seq m k) (seq m l) := by
  funext tokens value faults
  simp only [seq, alt, or_and_right, and_or_left, exists_or]

theorem alt_seq (m k : Reading E (α → β)) (l : Reading E α) :
    seq (alt m k) l = alt (seq m l) (seq k l) := by
  funext tokens value faults
  simp only [seq, alt, or_and_right, exists_or]

theorem alt_assoc (m k l : Reading E α) : alt (alt m k) l = alt m (alt k l) := by
  funext tokens value faults
  simp [alt, or_assoc]

/-- Two lists of kinds as one. -/
theorem alt_token {kinds kinds' : List Kind} (all : List Kind)
    (h : ∀ k, k ∈ all ↔ k ∈ kinds ∨ k ∈ kinds') :
    alt (token kinds) (token kinds') = (token all : Reading E Located) := by
  funext tokens value faults
  simp only [alt, token, eq_iff_iff, h]
  tauto

/-- What is made of a token matters for tokens of the listed kinds only. -/
theorem map_token {f g : Located → α} {kinds : List Kind} (h : ∀ t, t.kind ∈ kinds → f t = g t) :
    map f (token kinds) = (map g (token kinds) : Reading E α) := by
  funext tokens value faults
  simp only [map, token, eq_iff_iff]
  constructor
  · rintro ⟨t, ⟨htokens, hkind, hfaults⟩, hvalue⟩
    exact ⟨t, ⟨htokens, hkind, hfaults⟩, (h t hkind).symm.trans hvalue⟩
  · rintro ⟨t, ⟨htokens, hkind, hfaults⟩, hvalue⟩
    exact ⟨t, ⟨htokens, hkind, hfaults⟩, (h t hkind).trans hvalue⟩

/-- An option whose two outcomes are treated apart. -/
theorem map_opt (f : Option α → β) (m : Reading E α) :
    map f (opt m) = alt (map (fun a => f (some a)) m) (pure (f none)) := by
  rw [opt, map_alt, map_map, map_pure]
  rfl

theorem star_single {m : Reading E α} {tokens : List Located} {a : α} {faults : List E}
    (h : m tokens a faults) : Star m tokens [a] faults := by
  simpa using Star.cons h .nil

/-- A repetition is empty or begins with one reading. -/
theorem star_eq (m : Reading E α) : Star m = alt (seq (map List.cons m) (Star m)) (pure []) := by
  funext tokens value faults
  simp only [alt, seq, map, pure, eq_iff_iff]
  constructor
  · rintro (_ | ⟨first, rest⟩)
    · exact .inr ⟨rfl, rfl, rfl⟩
    · exact .inl ⟨_, _, _, _, _, _, ⟨_, first, rfl⟩, rest, rfl, rfl, rfl⟩
  · rintro (⟨_, _, _, _, _, _, ⟨_, first, rfl⟩, rest, rfl, rfl, rfl⟩ | ⟨rfl, rfl, rfl⟩)
    · exact .cons first rest
    · exact .nil

@[simp] theorem star_map (f : α → β) (m : Reading E α) : Star (map f m) = map (List.map f) (Star m) := by
  funext tokens value faults
  rw [eq_iff_iff]
  constructor
  · intro h
    induction h with
    | nil => exact ⟨[], .nil, rfl⟩
    | cons first rest ih =>
      obtain ⟨a, ha, rfl⟩ := first
      obtain ⟨as, has, rfl⟩ := ih
      exact ⟨a :: as, .cons ha has, rfl⟩
  · rintro ⟨as, has, rfl⟩
    induction has with
    | nil => exact .nil
    | cons first rest ih => exact .cons ⟨_, first, rfl⟩ ih

@[simp] theorem judge_nil (m : Reading E α) : judge (fun _ => []) m = m := by
  funext tokens value faults
  simp [judge]

/-! ## What is rejected as a part of the value -/

/-- Nothing is rejected. -/
def Faultless (m : Reading E α) : Prop := ∀ tokens a faults, m tokens a faults → faults = []

/-- A reading whose value says what is rejected. -/
def tell (m : Reading E (α × List E)) : Reading E α := fun tokens a faults => m tokens (a, faults) []

section

variable {m : Reading E α} {k : Reading E (α → β)}

@[simp] theorem faultless_token (kinds : List Kind) : Faultless (token kinds : Reading E Located) :=
  fun _ _ _ h => h.2.2

@[simp] theorem faultless_pure (a : α) : Faultless (pure a : Reading E α) := fun _ _ _ h => h.2.2

@[simp] theorem Faultless.map (f : α → β) (hm : Faultless m) : Faultless (map f m) := by
  rintro tokens value faults ⟨a, ha, rfl⟩
  exact hm _ _ _ ha

@[simp] theorem Faultless.seq (hk : Faultless k) (hm : Faultless m) : Faultless (seq k m) := by
  rintro tokens value faults ⟨front, f, before, back, a, behind, hf, ha, rfl, rfl, rfl⟩
  rw [hk _ _ _ hf, hm _ _ _ ha, List.nil_append]

@[simp] theorem Faultless.alt {m' : Reading E α} (hm : Faultless m) (hm' : Faultless m') :
    Faultless (alt m m') := by
  rintro tokens value faults (h | h)
  · exact hm _ _ _ h
  · exact hm' _ _ _ h

@[simp] theorem Faultless.opt (hm : Faultless m) : Faultless (opt m) :=
  (hm.map some).alt (faultless_pure none)

@[simp] theorem Faultless.star (hm : Faultless m) : Faultless (Star m) := by
  intro tokens value faults h
  induction h with
  | nil => rfl
  | cons first rest ih => rw [hm _ _ _ first, ih, List.nil_append]

theorem Faultless.eq_tell (hm : Faultless m) : m = tell (Reading.map (fun a => (a, [])) m) := by
  funext tokens value faults
  rw [eq_iff_iff]
  constructor
  · intro h
    obtain rfl := hm _ _ _ h
    exact ⟨value, h, rfl⟩
  · rintro ⟨a, h, heq⟩
    obtain ⟨rfl, rfl⟩ := Prod.mk.inj heq
    exact h

theorem Faultless.judge_eq_tell (hm : Faultless m) (rejects : α → List E) :
    judge rejects m = tell (Reading.map (fun a => (a, rejects a)) m) := by
  funext tokens value faults
  rw [eq_iff_iff]
  constructor
  · rintro ⟨before, h, rfl⟩
    obtain rfl := hm _ _ _ h
    exact ⟨value, h, rfl⟩
  · rintro ⟨a, h, heq⟩
    obtain ⟨rfl, rfl⟩ := Prod.mk.inj heq
    exact ⟨[], h, rfl⟩

theorem map_tell (f : α → β) (m : Reading E (α × List E)) :
    Reading.map f (tell m) = tell (Reading.map (fun p => (f p.1, p.2)) m) := by
  funext tokens value faults
  simp [Reading.map, tell]

theorem alt_tell (m m' : Reading E (α × List E)) :
    Reading.alt (tell m) (tell m') = tell (Reading.alt m m') := rfl

theorem tell_seq_tell (k : Reading E ((α → β) × List E)) (m : Reading E (α × List E)) :
    Reading.seq (tell k) (tell m) =
      tell (Reading.seq (Reading.map (fun p q => (p.1 q.1, p.2 ++ q.2)) k) m) := by
  funext tokens value faults
  rw [eq_iff_iff]
  constructor
  · rintro ⟨front, f, before, back, a, behind, hf, ha, rfl, rfl, rfl⟩
    exact ⟨front, _, [], back, (a, behind), [], ⟨(f, before), hf, rfl⟩, ha, rfl, rfl, rfl⟩
  · rintro ⟨front, _, before, back, ⟨a, behind⟩, others, ⟨⟨f, before⟩, hf, rfl⟩, ha, rfl, heq, hnil⟩
    obtain ⟨rfl, rfl⟩ := Prod.mk.inj heq
    obtain ⟨rfl, rfl⟩ := List.append_eq_nil_iff.1 hnil
    exact ⟨front, f, before, back, a, behind, hf, ha, rfl, rfl, rfl⟩

theorem Faultless.seq_tell (hk : Faultless k) (m : Reading E (α × List E)) :
    Reading.seq k (tell m) = tell (Reading.seq (Reading.map (fun f p => (f p.1, p.2)) k) m) := by
  rw [hk.eq_tell, tell_seq_tell, ← hk.eq_tell]
  simp [Function.comp_def]

theorem Faultless.tell_seq (hm : Faultless m) (k : Reading E ((α → β) × List E)) :
    Reading.seq (tell k) m = tell (Reading.seq (Reading.map (fun p a => (p.1 a, p.2)) k) m) := by
  rw [hm.eq_tell, tell_seq_tell, ← hm.eq_tell]
  simp [Function.comp_def]

theorem star_tell (m : Reading E (α × List E)) :
    Star (tell m) = tell (Reading.map (fun ps => (ps.map (·.1), ps.flatMap (·.2))) (Star m)) := by
  funext tokens value faults
  rw [eq_iff_iff]
  constructor
  · intro h
    induction h with
    | nil => exact ⟨[], .nil, rfl⟩
    | @cons front a before back as behind first rest ih =>
      obtain ⟨ps, hps, heq⟩ := ih
      obtain ⟨rfl, rfl⟩ := Prod.mk.inj heq
      have hcons : Star m (front ++ back) ((a, before) :: ps) ([] ++ []) := .cons first hps
      exact ⟨(a, before) :: ps, hcons, rfl⟩
  · rintro ⟨ps, hps, heq⟩
    obtain ⟨rfl, rfl⟩ := Prod.mk.inj heq
    generalize hnil : ([] : List E) = none at hps
    induction hps with
    | nil => exact .nil
    | @cons front p before back ps behind first rest ih =>
      obtain ⟨rfl, rfl⟩ := List.append_eq_nil_iff.1 hnil.symm
      exact .cons first (ih rfl rfl)

end

end Reading

/-! ## The reading of a grammar -/

namespace Grammar

variable {R : Type → Type} {E α β : Type} {ρ : {α : Type} → R α → Reading E α}

/-- What a grammar reads, given what its rules read. -/
def reads (ρ : {α : Type} → R α → Reading E α) : {α : Type} → Grammar R α → Reading E α
  | _, .token kinds => .token kinds
  | _, .pure value => .pure value
  | _, .map f g => .map f (g.reads ρ)
  | _, .seq g h => .seq (g.reads ρ) (h.reads ρ)
  | _, .alt g h => .alt (g.reads ρ) (h.reads ρ)
  | _, .many g => .Star (g.reads ρ)
  | _, .rule r => ρ r

@[simp] theorem reads_token (kinds : List Kind) :
    (token kinds : Grammar R Located).reads ρ = .token kinds := rfl

@[simp] theorem reads_pure (value : α) : (Pure.pure value : Grammar R α).reads ρ = .pure value := rfl

@[simp] theorem reads_map (f : α → β) (g : Grammar R α) :
    (f <$> g).reads ρ = .map f (g.reads ρ) := rfl

@[simp] theorem reads_seq (g : Grammar R (α → β)) (h : Grammar R α) :
    (g <*> h).reads ρ = .seq (g.reads ρ) (h.reads ρ) := rfl

@[simp] theorem reads_seqRight (g : Grammar R α) (h : Grammar R β) :
    (g *> h).reads ρ = .seq (.map (fun _ b => b) (g.reads ρ)) (h.reads ρ) := rfl

@[simp] theorem reads_seqLeft (g : Grammar R α) (h : Grammar R β) :
    (g <* h).reads ρ = .seq (.map (fun a _ => a) (g.reads ρ)) (h.reads ρ) := rfl

@[simp] theorem reads_orElse (g h : Grammar R α) :
    (g <|> h).reads ρ = .alt (g.reads ρ) (h.reads ρ) := rfl

@[simp] theorem reads_many (g : Grammar R α) : g.many.reads ρ = .Star (g.reads ρ) := rfl

@[simp] theorem reads_opt (g : Grammar R α) : g.opt.reads ρ = .opt (g.reads ρ) := rfl

@[simp] theorem reads_many1 (g : Grammar R α) :
    g.many1.reads ρ = .seq (.map List.cons (g.reads ρ)) (.Star (g.reads ρ)) := rfl

@[simp] theorem reads_rule (r : R α) : (rule r).reads ρ = ρ r := rfl

theorem faultless_reads (hρ : ∀ {α : Type} (r : R α), (ρ r).Faultless) (g : Grammar R α) :
    (g.reads ρ).Faultless := by
  induction g with
  | token kinds => exact Reading.faultless_token kinds
  | pure value => exact Reading.faultless_pure value
  | map f g ih => exact ih.map f
  | seq g h ihg ihh => exact ihg.seq ihh
  | alt g h ihg ihh => exact ihg.alt ihh
  | many g ih => exact ih.star
  | rule r => exact hρ r

end Grammar

end FragmentShapes
