import FragmentShapes.Proofs.Grammar.Preview

/-!
# Runs of a predictive parser

`Language.Run` says, without a bound on the depth of rules, what a parser reads off the front of a text: a
phrase with its value, or tokens after which it stops. Such a run is decided by the tokens that it has
read and by the one behind them.

The main statements are on a language that is foreseen, which is that the first token of an alternative
decides for it, and a rule inside a rule comes behind a token. `Language.parse_eq_ok_iff` says that
exactly the texts that the grammar reads are parsed, and `Language.of_parse_eq_error` that a parser stops
at the first token with which no text goes on.
-/

namespace FragmentShapes

open Token (Kind Located)

namespace Grammar

variable {R : Type → Type} {α β : Type}

/-- No rule comes first: there is a token before it. -/
def isGuarded (v : Preview R) : {α : Type} → Grammar R α → Bool
  | _, token _ => true
  | _, pure _ => true
  | _, map _ g => g.isGuarded v
  | _, seq g h => g.isGuarded v && (!g.mayBeEmpty v || h.isGuarded v)
  | _, alt g h => g.isGuarded v && h.isGuarded v
  | _, many g => g.isGuarded v
  | _, rule _ => false

/-- There is a phrase without a rule in it. -/
def isGround : {α : Type} → Grammar R α → Bool
  | _, token kinds => !kinds.isEmpty
  | _, pure _ => true
  | _, map _ g => g.isGround
  | _, seq g h => g.isGround && h.isGround
  | _, alt g h => g.isGround || h.isGround
  | _, many _ => true
  | _, rule _ => false

/-- Every part has a phrase, as long as every rule has one. -/
def isInhabited : {α : Type} → Grammar R α → Bool
  | _, token kinds => !kinds.isEmpty
  | _, pure _ => true
  | _, map _ g => g.isInhabited
  | _, seq g h => g.isInhabited && h.isInhabited
  | _, alt g h => g.isInhabited && h.isInhabited
  | _, many g => g.isInhabited
  | _, rule _ => true

/-- A number of tokens that a depth of rules is enough for. -/
def Suffices (v : Preview R) (depth : Nat) (g : Grammar R α) (length : Nat) : Prop :=
  length < depth ∨ g.isGuarded v = true ∧ length ≤ depth

section

variable {v : Preview R} {depth m n : Nat} {g k : Grammar R α} {f : Grammar R (α → β)}

theorem Suffices.mono (h : g.Suffices v depth m) (hle : n ≤ m) : g.Suffices v depth n := by
  obtain h | ⟨hguarded, h⟩ := h
  · exact .inl (by omega)
  · exact .inr ⟨hguarded, by omega⟩

theorem Suffices.first (h : (Grammar.seq f g).Suffices v depth (m + n)) : f.Suffices v depth m := by
  obtain h | ⟨hguarded, h⟩ := h
  · exact .inl (by omega)
  · exact .inr ⟨(Bool.and_eq_true_iff.1 hguarded).1, by omega⟩

theorem Suffices.second (h : (Grammar.seq f g).Suffices v depth (m + n))
    (hempty : m = 0 → f.mayBeEmpty v = true) : g.Suffices v depth n := by
  obtain h | ⟨hguarded, h⟩ := h
  · exact .inl (by omega)
  · by_cases hm : m = 0
    · have hg := (Bool.and_eq_true_iff.1 hguarded).2
      rw [hempty hm, Bool.not_true, Bool.false_or] at hg
      exact .inr ⟨hg, by omega⟩
    · exact .inl (by omega)

theorem Suffices.left (h : (Grammar.alt g k).Suffices v depth n) : g.Suffices v depth n :=
  h.imp_right fun h => ⟨(Bool.and_eq_true_iff.1 h.1).1, h.2⟩

theorem Suffices.right (h : (Grammar.alt g k).Suffices v depth n) : k.Suffices v depth n :=
  h.imp_right fun h => ⟨(Bool.and_eq_true_iff.1 h.1).2, h.2⟩

theorem Suffices.item (h : g.many.Suffices v depth n) : g.Suffices v depth n := h

/-- A rule takes one level of the depth. -/
theorem Suffices.lt {r : R α} (h : (Grammar.rule r).Suffices v depth n) : n < depth := by
  obtain h | ⟨hguarded, _⟩ := h
  · exact h
  · cases hguarded

end

end Grammar

/-- What a parser returns that gets a value and leaves some tokens, or stops there. -/
def Parser.outcome {α : Type} :
    Option α → List Located → Except (List Located) (α × List Located)
  | some a, rest => .ok (a, rest)
  | none, rest => .error rest

namespace Language

variable {R : Type → Type} {E α β : Type}

/-- The next token is one with which a phrase of the grammar starts. -/
def begins (L : Language R) (g : Grammar R α) (next : Option Located) : Bool :=
  next.any fun t => g.starts L.leads t.kind

/-- From the tokens in front, and with the next one in sight, the parser of a grammar gets a value, or it
stops there. -/
inductive Run (L : Language R) :
    {α : Type} → Grammar R α → List Located → Option Located → Option α → Prop where
  | token {kinds : List Kind} {t : Located} {next : Option Located} (h : t.kind ∈ kinds) :
    Run L (.token kinds) [t] next (some t)
  | token_stop {kinds : List Kind} {next : Option Located} (h : ∀ t ∈ next, t.kind ∉ kinds) :
    Run L (.token kinds) [] next none
  | pure {α : Type} (a : α) {next : Option Located} : Run L (.pure a) [] next (some a)
  | map {α β : Type} {g : Grammar R α} {front : List Located} {next : Option Located} {r : Option α}
    (f : α → β) (h : Run L g front next r) : Run L (.map f g) front next (r.map f)
  | seq {α β : Type} {g : Grammar R (α → β)} {k : Grammar R α} {front back : List Located}
    {next : Option Located} {f : α → β} {r : Option α}
    (first : Run L g front (back.head?.or next) (some f)) (rest : Run L k back next r) :
    Run L (.seq g k) (front ++ back) next (r.map f)
  | seq_stop {α β : Type} {g : Grammar R (α → β)} {k : Grammar R α} {front : List Located}
    {next : Option Located} (first : Run L g front next none) : Run L (.seq g k) front next none
  | left {α : Type} {g k : Grammar R α} {front : List Located} {next : Option Located} {r : Option α}
    (hbegins : L.begins g (front.head?.or next) = true) (h : Run L g front next r) :
    Run L (.alt g k) front next r
  | right {α : Type} {g k : Grammar R α} {front : List Located} {next : Option Located} {r : Option α}
    (hbegins : L.begins g (front.head?.or next) = false) (h : Run L k front next r) :
    Run L (.alt g k) front next r
  | many_nil {α : Type} {g : Grammar R α} {next : Option Located} (hbegins : L.begins g next = false) :
    Run L (.many g) [] next (some [])
  | many_cons {α : Type} {g : Grammar R α} {front back : List Located} {next : Option Located} {a : α}
    {r : Option (List α)} (hbegins : L.begins g (front.head?.or (back.head?.or next)) = true)
    (first : Run L g front (back.head?.or next) (some a)) (rest : Run L (.many g) back next r) :
    Run L (.many g) (front ++ back) next (r.map (a :: ·))
  | many_stop {α : Type} {g : Grammar R α} {front : List Located} {next : Option Located}
    (hbegins : L.begins g (front.head?.or next) = true) (first : Run L g front next none) :
    Run L (.many g) front next none
  | rule {α : Type} {n : R α} {front : List Located} {next : Option Located} {r : Option α}
    (h : Run L (L.body n) front next r) : Run L (.rule n) front next r

/-- The preview is right about a language, whose rules read what `ρ` says, and the next token decides at
each place how a phrase goes on. -/
structure IsForeseen (L : Language R) (v : Preview R) (ρ : {α : Type} → R α → Reading E α) : Prop where
  reads : ∀ {α : Type} (n : R α), ρ n = (L.body n).reads ρ
  shows : ∀ {α : Type} {n : R α} {tokens a faults}, ρ n tokens a faults →
    (Grammar.rule n).Shows v tokens
  nullable : ∀ {α : Type} (n : R α), v.nullable n = false
  leads : ∀ {α : Type} (n : R α) (k : Kind), (v.firsts n).contains k = L.leads n k
  decided : ∀ {α : Type} (n : R α), (L.body n).isDecided v false = true
  guarded : ∀ {α : Type} (n : R α), (L.body n).isGuarded v = true
  extensions : ∀ {α : Type} (n : R α) {k : Kind},
    ((L.body n).extensions v).contains k = true → (v.extensions n).contains k = true
  ground : ∀ {α : Type} (n : R α), (L.body n).isGround = true
  inhabited : ∀ {α : Type} (n : R α), (L.body n).isInhabited = true

section

variable {L : Language R} {v : Preview R} {ρ : {α : Type} → R α → Reading E α}

namespace IsForeseen

theorem mayBeEmpty_eq (hL : L.IsForeseen v ρ) (g : Grammar R α) : g.mayBeEmpty v = g.nullable := by
  induction g with
  | map f g ih => exact ih
  | seq g h ihg ihh => simp [Grammar.mayBeEmpty, Grammar.nullable, ihg, ihh]
  | alt g h ihg ihh => simp [Grammar.mayBeEmpty, Grammar.nullable, ihg, ihh]
  | rule n => exact hL.nullable n
  | _ => rfl

theorem contains_firsts (hL : L.IsForeseen v ρ) (g : Grammar R α) (k : Kind) :
    (g.firsts v).contains k = g.starts L.leads k := by
  induction g with
  | token kinds => simp [Grammar.firsts, Grammar.starts]
  | pure a => simp [Grammar.firsts, Grammar.starts]
  | map f g ih => exact ih
  | seq g h ihg ihh => simp [Grammar.firsts, Grammar.starts, ihg, ihh, hL.mayBeEmpty_eq]
  | alt g h ihg ihh => simp [Grammar.firsts, Grammar.starts, ihg, ihh]
  | many g ih => exact ih
  | rule n => exact hL.leads n k

/-- What a grammar reads looks as foreseen. -/
theorem shows_of (hL : L.IsForeseen v ρ) {g : Grammar R α} {tokens : List Located} {a : α}
    {faults : List E} (h : g.reads ρ tokens a faults) : g.Shows v tokens :=
  Grammar.shows_of_reads hL.shows h

theorem begins_of (hL : L.IsForeseen v ρ) {g : Grammar R α} {t : Located} {tokens : List Located}
    (h : g.Shows v (t :: tokens)) (next : Option Located) :
    L.begins g ((t :: tokens).head?.or next) = true := by
  simpa [begins, hL.contains_firsts] using h.first

theorem not_begins (hL : L.IsForeseen v ρ) {g : Grammar R α} {next : Option Located}
    (h : ∀ t ∈ next, (g.firsts v).contains t.kind = false) : L.begins g next = false := by
  cases next with
  | none => rfl
  | some t => simpa [begins, hL.contains_firsts] using h t rfl

end IsForeseen

/-! ## What a run reads -/

/-- A run that gets a value reads a phrase with it. -/
theorem Run.reads (hL : L.IsForeseen v ρ) {g : Grammar R α} {front : List Located}
    {next : Option Located} {r : Option α} (h : L.Run g front next r) :
    ∀ a ∈ r, g.reads ρ front a [] := by
  induction h with
  | token h => rintro _ ⟨rfl⟩; exact ⟨rfl, h, rfl⟩
  | pure a => rintro _ ⟨rfl⟩; exact ⟨rfl, rfl, rfl⟩
  | map f h ih =>
    rintro _ hb
    obtain ⟨a, ha, rfl⟩ := Option.map_eq_some_iff.1 hb
    exact ⟨a, ih a ha, rfl⟩
  | seq first rest ihfirst ihrest =>
    rintro _ hb
    obtain ⟨a, ha, rfl⟩ := Option.map_eq_some_iff.1 hb
    exact ⟨_, _, _, _, _, _, ihfirst _ rfl, ihrest a ha, rfl, rfl, rfl⟩
  | left hbegins h ih => exact fun a ha => .inl (ih a ha)
  | right hbegins h ih => exact fun a ha => .inr (ih a ha)
  | many_nil hbegins => rintro _ ⟨rfl⟩; exact .nil
  | many_cons hbegins first rest ihfirst ihrest =>
    rintro _ hb
    obtain ⟨as, has, rfl⟩ := Option.map_eq_some_iff.1 hb
    exact .cons (ihfirst _ rfl) (ihrest as has)
  | @rule _ n _ _ _ h ih =>
    intro a ha
    rw [Grammar.reads, hL.reads n]
    exact ih a ha
  | _ => exact fun a ha => by cases ha

/-- A run that gets a value from no tokens is one of a grammar with an empty phrase. -/
theorem Run.mayBeEmpty (hL : L.IsForeseen v ρ) {g : Grammar R α} {next : Option Located} {a : α}
    (h : L.Run g [] next (some a)) : g.mayBeEmpty v = true := hL.shows_of (h.reads hL a rfl)

/-! ## What a run that stops could have read -/

theorem exists_token (k : Kind) : ∃ t : Located, t.kind = k := by
  cases k with
  | name => exact ⟨⟨.name "", 0⟩, rfl⟩
  | var => exact ⟨⟨.var "", 0⟩, rfl⟩
  | int => exact ⟨⟨.int 0, 0⟩, rfl⟩
  | float => exact ⟨⟨.float default, 0⟩, rfl⟩
  | string => exact ⟨⟨.string "", 0⟩, rfl⟩
  | block => exact ⟨⟨.block "", 0⟩, rfl⟩
  | keyword word => exact ⟨⟨.keyword word, 0⟩, rfl⟩
  | punctuator mark => exact ⟨⟨.punctuator mark, 0⟩, rfl⟩

theorem exists_reads_token {kinds : List Kind} (h : (!kinds.isEmpty) = true) :
    ∃ tokens t, (Grammar.token kinds : Grammar R Located).reads ρ tokens t [] := by
  cases kinds with
  | nil => cases h
  | cons k kinds =>
    obtain ⟨t, ht⟩ := exists_token k
    exact ⟨[t], t, rfl, by simp [ht], rfl⟩

theorem exists_reads_seq {g : Grammar R (α → β)} {k : Grammar R α}
    (hg : ∃ tokens f, g.reads ρ tokens f []) (hk : ∃ tokens a, k.reads ρ tokens a []) :
    ∃ tokens b, (Grammar.seq g k).reads ρ tokens b [] := by
  obtain ⟨front, f, hf⟩ := hg
  obtain ⟨back, a, ha⟩ := hk
  exact ⟨front ++ back, f a, front, f, [], back, a, [], hf, ha, rfl, rfl, rfl⟩

theorem exists_reads_of_isGround {g : Grammar R α} (hg : g.isGround = true) :
    ∃ tokens a, g.reads ρ tokens a [] := by
  induction g with
  | token kinds => exact exists_reads_token hg
  | pure a => exact ⟨[], a, rfl, rfl, rfl⟩
  | map f g ih =>
    obtain ⟨tokens, a, h⟩ := ih hg
    exact ⟨tokens, f a, a, h, rfl⟩
  | seq g k ihg ihk =>
    obtain ⟨hg, hk⟩ := Bool.and_eq_true_iff.1 hg
    exact exists_reads_seq (ihg hg) (ihk hk)
  | alt g k ihg ihk =>
    obtain hg | hk := Bool.or_eq_true_iff.1 hg
    · obtain ⟨tokens, a, h⟩ := ihg hg
      exact ⟨tokens, a, .inl h⟩
    · obtain ⟨tokens, a, h⟩ := ihk hk
      exact ⟨tokens, a, .inr h⟩
  | many g ih => exact ⟨[], [], .nil⟩
  | rule n => cases hg

/-- Every grammar has a phrase if its parts have. -/
theorem exists_reads (hL : L.IsForeseen v ρ) {g : Grammar R α} (hg : g.isInhabited = true) :
    ∃ tokens a, g.reads ρ tokens a [] := by
  induction g with
  | token kinds => exact exists_reads_token hg
  | pure a => exact ⟨[], a, rfl, rfl, rfl⟩
  | map f g ih =>
    obtain ⟨tokens, a, h⟩ := ih hg
    exact ⟨tokens, f a, a, h, rfl⟩
  | seq g k ihg ihk =>
    obtain ⟨hg, hk⟩ := Bool.and_eq_true_iff.1 hg
    exact exists_reads_seq (ihg hg) (ihk hk)
  | alt g k ihg ihk =>
    obtain ⟨tokens, a, h⟩ := ihg (Bool.and_eq_true_iff.1 hg).1
    exact ⟨tokens, a, .inl h⟩
  | many g ih => exact ⟨[], [], .nil⟩
  | rule n =>
    rw [Grammar.reads, hL.reads n]
    exact exists_reads_of_isGround (hL.ground n)

/-- Where a run stops, some phrase goes on. -/
theorem Run.viable (hL : L.IsForeseen v ρ) {g : Grammar R α} {front : List Located}
    {next : Option Located} {r : Option α} (h : L.Run g front next r) (hr : r = none)
    (hg : g.isInhabited = true) : ∃ more a, g.reads ρ (front ++ more) a [] := by
  -- Along the run up to where it stops; what comes behind that part has some phrase.
  induction h with
  | @token_stop kinds next h => exact exists_reads hL hg
  | map f h ih =>
    obtain ⟨more, a, h⟩ := ih (Option.map_eq_none_iff.1 hr) hg
    exact ⟨more, f a, a, h, rfl⟩
  | @seq _ _ g k front back _ f _ first rest ihfirst ihrest =>
    obtain ⟨more, a, h⟩ := ihrest (Option.map_eq_none_iff.1 hr) (Bool.and_eq_true_iff.1 hg).2
    exact ⟨more, f a, front, f, [], back ++ more, a, [], first.reads hL f rfl, h,
      (List.append_assoc _ _ _).symm, rfl, rfl⟩
  | seq_stop first ih =>
    obtain ⟨hg, hh⟩ := Bool.and_eq_true_iff.1 hg
    obtain ⟨more, f, hf⟩ := ih rfl hg
    obtain ⟨back, a, ha⟩ := exists_reads hL hh
    exact ⟨more ++ back, f a, _, _, _, _, _, _, hf, ha, by simp, rfl, rfl⟩
  | left hbegins h ih =>
    obtain ⟨more, a, h⟩ := ih hr (Bool.and_eq_true_iff.1 hg).1
    exact ⟨more, a, .inl h⟩
  | right hbegins h ih =>
    obtain ⟨more, a, h⟩ := ih hr (Bool.and_eq_true_iff.1 hg).2
    exact ⟨more, a, .inr h⟩
  | @many_cons _ g front back _ a _ hbegins first rest ihfirst ihrest =>
    obtain ⟨more, as, h⟩ := ihrest (Option.map_eq_none_iff.1 hr) hg
    refine ⟨more, a :: as, ?_⟩
    rw [List.append_assoc]
    exact .cons (first.reads hL a rfl) h
  | many_stop hbegins first ih =>
    obtain ⟨more, a, h⟩ := ih rfl hg
    exact ⟨more, [a], Reading.star_single h⟩
  | @rule _ n _ _ _ h ih =>
    obtain ⟨more, a, h⟩ := ih hr (hL.inhabited n)
    refine ⟨more, a, ?_⟩
    rw [Grammar.reads, hL.reads n]
    exact h
  | _ => cases hr

/-! ## Every text has a run -/

theorem head?_or (front rest : List Located) : front.head?.or rest.head? = (front ++ rest).head? :=
  List.head?_append.symm

theorem exists_run_of_rules (hL : L.IsForeseen v ρ) {depth : Nat}
    (hrules : ∀ {α : Type} (n : R α) {tokens : List Located}, tokens.length < depth →
      ∃ front rest r, front ++ rest = tokens ∧ L.Run (.rule n) front rest.head? r)
    {g : Grammar R α} (hg : g.isDecided v false = true) {tokens : List Located}
    (hdepth : g.Suffices v depth tokens.length) :
    ∃ front rest r, front ++ rest = tokens ∧ L.Run g front rest.head? r := by
  -- The depth is enough for each part: what is behind a first part is guarded too, or it has fewer tokens.
  induction g generalizing tokens with
  | token kinds =>
    by_cases h : ∃ t ∈ tokens.head?, t.kind ∈ kinds
    · obtain ⟨t, ht, hkind⟩ := h
      obtain ⟨rest, rfl⟩ := List.head?_eq_some_iff.1 ht
      exact ⟨[t], rest, some t, rfl, .token hkind⟩
    · exact ⟨[], tokens, none, rfl, .token_stop fun t ht hkind => h ⟨t, ht, hkind⟩⟩
  | pure a => exact ⟨[], tokens, some a, rfl, .pure a⟩
  | map f g ih =>
    obtain ⟨front, rest, r, rfl, h⟩ := ih hg hdepth
    exact ⟨front, rest, r.map f, rfl, .map f h⟩
  | seq g k ihg ihk =>
    rw [Grammar.isDecided_seq] at hg
    obtain ⟨front, others, r, rfl, hfirst⟩ := ihg hg.1.1 (Grammar.Suffices.first (n := 0) hdepth)
    cases r with
    | none => exact ⟨front, others, none, rfl, .seq_stop hfirst⟩
    | some f =>
      rw [List.length_append] at hdepth
      obtain ⟨back, rest, r, rfl, hrest⟩ := ihk hg.1.2 (hdepth.second fun hnil => by
        rw [List.length_eq_zero_iff.1 hnil] at hfirst
        exact hfirst.mayBeEmpty hL)
      rw [← head?_or] at hfirst
      exact ⟨front ++ back, rest, r.map f, List.append_assoc _ _ _, .seq hfirst hrest⟩
  | alt g k ihg ihk =>
    rw [Grammar.isDecided_alt] at hg
    cases hbegins : L.begins g tokens.head? with
    | true =>
      obtain ⟨front, rest, r, rfl, h⟩ := ihg hg.1.1.1 hdepth.left
      exact ⟨front, rest, r, rfl, .left (by rwa [head?_or]) h⟩
    | false =>
      obtain ⟨front, rest, r, rfl, h⟩ := ihk hg.1.1.2 hdepth.right
      exact ⟨front, rest, r, rfl, .right (by rwa [head?_or]) h⟩
  | many g ih =>
    rw [Grammar.isDecided_many] at hg
    induction hlength : tokens.length using Nat.strongRecOn generalizing tokens with
    | ind length ihlength =>
    cases hbegins : L.begins g tokens.head? with
    | false => exact ⟨[], tokens, some [], rfl, .many_nil hbegins⟩
    | true =>
      obtain ⟨front, others, r, rfl, hfirst⟩ := ih hg.1.1 hdepth.item
      rw [← head?_or] at hbegins
      cases r with
      | none => exact ⟨front, others, none, rfl, .many_stop hbegins hfirst⟩
      | some a =>
        -- An item is not empty, so that less is left.
        have hne : front ≠ [] := (hL.shows_of (hfirst.reads hL a rfl)).ne_nil hg.1.2
        have hlt : others.length < (front ++ others).length := by
          have := List.length_pos_iff.2 hne
          rw [List.length_append]
          omega
        obtain ⟨back, rest, r, rfl, hrest⟩ := ihlength _ (hlength ▸ hlt)
          (hdepth.mono (by omega)) rfl
        rw [← head?_or] at hfirst hbegins
        exact ⟨front ++ back, rest, r.map (a :: ·), List.append_assoc _ _ _,
          .many_cons hbegins hfirst hrest⟩
  | rule n => exact hrules n hdepth.lt

theorem exists_run_rule (hL : L.IsForeseen v ρ) {depth : Nat} (n : R α) {tokens : List Located}
    (hdepth : tokens.length < depth) :
    ∃ front rest r, front ++ rest = tokens ∧ L.Run (.rule n) front rest.head? r := by
  induction depth generalizing α tokens with
  | zero => cases hdepth
  | succ depth ih =>
    obtain ⟨front, rest, r, rfl, h⟩ := exists_run_of_rules hL ih (hL.decided n)
      (.inr ⟨hL.guarded n, Nat.le_of_lt_succ hdepth⟩)
    exact ⟨front, rest, r, rfl, .rule h⟩

/-- Every text has a run at its front. -/
theorem exists_run (hL : L.IsForeseen v ρ) {g : Grammar R α} (hg : g.isDecided v false = true)
    (tokens : List Located) : ∃ front rest r, front ++ rest = tokens ∧ L.Run g front rest.head? r :=
  exists_run_of_rules hL (fun n => exists_run_rule hL n) hg (.inl (Nat.lt_succ_self tokens.length))

/-! ## The parser follows the run -/

theorem next_eq_begins (L : Language R) (g : Grammar R α) (tokens : List Located) :
    Parser.next (g.starts L.leads ·) tokens = L.begins g tokens.head? := by
  cases tokens <;> rfl

/-- The parser of a grammar returns what the run says; that of a repetition does so with every bound that
is not shorter than the text. -/
def Follows (L : Language R) (depth : Nat) (rest : List Located) :
    {α : Type} → Grammar R α → List Located → Option α → Prop
  | _, .many g, front, r => ∀ bound : List Located, (front ++ rest).length ≤ bound.length →
    Parser.many (g.starts L.leads ·) (L.parser (L.ruleParser depth) g) bound (front ++ rest) =
      Parser.outcome r rest
  | _, g, front, r => L.parser (L.ruleParser depth) g (front ++ rest) = Parser.outcome r rest

theorem Follows.parser_eq {depth : Nat} {rest front : List Located} {g : Grammar R α} {r : Option α}
    (h : L.Follows depth rest g front r) :
    L.parser (L.ruleParser depth) g (front ++ rest) = Parser.outcome r rest := by
  cases g with
  | many g => exact h (front ++ rest) (Nat.le_refl _)
  | _ => exact h

theorem Follows.many_cons {depth : Nat} {rest front back : List Located} {g : Grammar R α} {a : α}
    {r : Option (List α)} (hne : front ≠ [])
    (hbegins : Parser.next (g.starts L.leads ·) (front ++ (back ++ rest)) = true)
    (hfirst : L.parser (L.ruleParser depth) g (front ++ (back ++ rest)) = .ok (a, back ++ rest))
    (hmore : L.Follows depth rest g.many back r) :
    L.Follows depth rest g.many (front ++ back) (r.map (a :: ·)) := by
  intro bound hbound
  obtain ⟨t, front, rfl⟩ := List.exists_cons_of_ne_nil hne
  -- The bound gives up one token for an item, and the item is not empty.
  cases bound with
  | nil => cases hbound
  | cons u bound =>
    have hback := hmore bound (by simp at hbound ⊢; omega)
    simp only [Parser.many, List.append_assoc, hbegins, if_true, hfirst, bind, Except.bind, hback]
    cases r <;> rfl

theorem Follows.many_stop {depth : Nat} {rest front : List Located} {g : Grammar R α}
    (hbegins : Parser.next (g.starts L.leads ·) (front ++ rest) = true)
    (hfirst : L.parser (L.ruleParser depth) g (front ++ rest) = .error rest) :
    L.Follows depth rest g.many front none := by
  intro bound hbound
  cases bound with
  | nil =>
    rw [List.length_eq_zero_iff.1 (Nat.le_zero.1 hbound)] at hbegins
    cases hbegins
  | cons u bound =>
    simp only [Parser.many, hbegins, if_true, hfirst]
    rfl

theorem Run.follows (hL : L.IsForeseen v ρ) {g : Grammar R α} {front : List Located}
    {next : Option Located} {r : Option α} (h : L.Run g front next r)
    (hg : g.isDecided v false = true) (depth : Nat) (hdepth : g.Suffices v depth front.length)
    (rest : List Located) (hrest : rest.head? = next) : L.Follows depth rest g front r := by
  -- Along the run: only a rule takes from the depth, and the body of a rule is guarded again.
  induction h generalizing depth rest with
  | token h => simp [Follows, parser, Parser.token, Parser.outcome, h]
  | @token_stop kinds next h =>
    cases rest with
    | nil => rfl
    | cons t rest =>
      have hkind : t.kind ∉ kinds := h t (by simp [← hrest])
      simp [Follows, parser, Parser.token, Parser.outcome, hkind]
  | pure a => rfl
  | @map _ _ g _ _ r f h ih =>
    have hparser := (ih hg depth hdepth rest hrest).parser_eq
    simp only [Follows, parser, hparser]
    cases r <;> rfl
  | @seq _ _ g k front back _ f r first _ ihfirst ihrest =>
    rw [Grammar.isDecided_seq] at hg
    rw [List.length_append] at hdepth
    have hsecond : k.Suffices v depth back.length := hdepth.second fun hnil => by
      rw [List.length_eq_zero_iff.1 hnil] at first
      exact first.mayBeEmpty hL
    have hf := (ihfirst hg.1.1 depth hdepth.first (back ++ rest) (by simp [hrest])).parser_eq
    have hr := (ihrest hg.1.2 depth hsecond rest hrest).parser_eq
    simp only [Parser.outcome] at hf
    simp only [Follows, parser, List.append_assoc, hf, bind, Except.bind, hr]
    cases r <;> rfl
  | @seq_stop _ _ g _ front _ first ih =>
    rw [Grammar.isDecided_seq] at hg
    have hf := (ih hg.1.1 depth (Grammar.Suffices.first (n := 0) hdepth) rest hrest).parser_eq
    simp only [Follows, parser, hf, Parser.outcome]
    rfl
  | @left _ g k front _ r hbegins h ih =>
    rw [Grammar.isDecided_alt] at hg
    have hparser := (ih hg.1.1.1 depth hdepth.left rest hrest).parser_eq
    rw [← hrest, head?_or, ← next_eq_begins] at hbegins
    simp only [Follows, parser, hbegins, if_true, hparser]
  | @right _ g k front _ r hbegins h ih =>
    rw [Grammar.isDecided_alt] at hg
    have hparser := (ih hg.1.1.2 depth hdepth.right rest hrest).parser_eq
    rw [← hrest, head?_or, ← next_eq_begins] at hbegins
    simp only [Follows, parser, hbegins, hparser]
    rfl
  | @many_nil _ g _ hbegins =>
    intro bound hbound
    rw [← hrest, ← next_eq_begins] at hbegins
    cases bound with
    | nil => rfl
    | cons t bound => simp [Parser.many, hbegins, Parser.outcome]
  | @many_cons _ g front back _ a r hbegins first _ ihfirst ihrest =>
    have hitem := Grammar.isDecided_many.1 hg
    have hne : front ≠ [] := (hL.shows_of (first.reads hL a rfl)).ne_nil hitem.1.2
    rw [List.length_append] at hdepth
    have hf := (ihfirst hitem.1.1 depth (Grammar.Suffices.mono hdepth.item (by omega)) (back ++ rest)
      (by simp [hrest])).parser_eq
    rw [← hrest, head?_or, head?_or, ← next_eq_begins] at hbegins
    exact .many_cons hne hbegins hf (ihrest hg depth (hdepth.mono (by omega)) rest hrest)
  | @many_stop _ g front _ hbegins first ih =>
    have hf := (ih (Grammar.isDecided_many.1 hg).1.1 depth hdepth.item rest hrest).parser_eq
    rw [← hrest, head?_or, ← next_eq_begins] at hbegins
    exact .many_stop hbegins hf
  | @rule _ n front _ r h ih =>
    have hlt := hdepth.lt
    obtain ⟨d, rfl⟩ : ∃ d, depth = d + 1 := ⟨depth - 1, by omega⟩
    exact (ih (hL.decided n) d (.inr ⟨hL.guarded n, by omega⟩) rest hrest).parser_eq

/-! ## What is read is parsed -/

theorem run_of_reads_of_rules (hL : L.IsForeseen v ρ) {depth : Nat}
    (hrules : ∀ {α : Type} (n : R α) {front : List Located} {a : α} {faults : List E}
      {rest : List Located}, front.length < depth → ρ n front a faults →
      (Grammar.rule n).Ends v rest → L.Run (.rule n) front rest.head? (some a))
    {g : Grammar R α} (hg : g.isDecided v false = true) {front : List Located} {a : α}
    {faults : List E} (h : g.reads ρ front a faults) (hdepth : g.Suffices v depth front.length)
    {rest : List Located} (hrest : g.Ends v rest) : L.Run g front rest.head? (some a) := by
  induction g generalizing front faults rest with
  | token kinds =>
    obtain ⟨rfl, hkind, _⟩ := h
    exact .token hkind
  | pure value =>
    obtain ⟨rfl, rfl, _⟩ := h
    exact .pure value
  | map f g ih =>
    obtain ⟨b, hb, rfl⟩ := h
    exact .map f (ih hg hb hdepth hrest)
  | seq g k ihg ihk =>
    obtain ⟨front, f, before, back, b, behind, hf, hb, rfl, rfl, rfl⟩ := h
    rw [Grammar.isDecided_seq] at hg
    rw [List.length_append] at hdepth
    have hfirst := ihg hg.1.1 hf hdepth.first (hrest.first hg.2 (hL.shows_of hb))
    have hsecond := ihk hg.1.2 hb (hdepth.second fun hnil => by
      rw [List.length_eq_zero_iff.1 hnil] at hf
      exact hL.shows_of hf) hrest.second
    rw [← head?_or] at hfirst
    exact .seq hfirst hsecond
  | alt g k ihg ihk =>
    obtain ⟨⟨⟨hdecg, hdeck⟩, hne⟩, hapart⟩ := Grammar.isDecided_alt.1 hg
    obtain h | h := h
    · have hshows := hL.shows_of h
      obtain ⟨t, tokens, rfl⟩ := List.exists_cons_of_ne_nil (hshows.ne_nil hne)
      exact .left (hL.begins_of hshows _) (ihg hdecg h hdepth.left hrest.left)
    · have hshows := hL.shows_of h
      -- The next token begins the second alternative or, if that is empty, comes behind the phrase.
      refine .right (hL.not_begins fun t ht => ?_) (ihk hdeck h hdepth.right hrest.right)
      cases front with
      | nil =>
        obtain ⟨others, rfl⟩ := List.head?_eq_some_iff.1 ht
        exact hrest.not_first hshows
      | cons u tokens =>
        obtain rfl : u = t := Option.some.inj ht
        rw [Grammar.areApart, Bool.false_and, Bool.or_false] at hapart
        by_contra hfirst
        exact Bool.false_ne_true ((KindSet.not_of_disjoint hapart
          (Bool.of_not_eq_false hfirst)).symm.trans hshows.first)
  | many g ih =>
    obtain ⟨⟨hdecg, hne⟩, hdisjoint⟩ := Grammar.isDecided_many.1 hg
    induction h with
    | nil => exact .many_nil (hL.not_begins fun t ht => by
        obtain ⟨others, rfl⟩ := List.head?_eq_some_iff.1 ht
        exact hrest.not_more)
    | @cons tokens b before back bs behind first more ihmore =>
      have hshows := hL.shows_of first
      have hmore : (Grammar.many g).reads ρ back bs behind := more
      rw [List.length_append] at hdepth
      have hfirst := ih hdecg first (Grammar.Suffices.mono hdepth.item (by omega))
        (hrest.item hdisjoint (hL.shows_of hmore))
      have hbehind := ihmore (hdepth.mono (by omega))
      obtain ⟨t, tokens, rfl⟩ := List.exists_cons_of_ne_nil (hshows.ne_nil hne)
      rw [← head?_or] at hfirst
      exact .many_cons (hL.begins_of hshows _) hfirst hbehind
  | rule n => exact hrules n hdepth.lt h hrest

theorem run_of_rule (hL : L.IsForeseen v ρ) {depth : Nat} (n : R α) {front : List Located} {a : α}
    {faults : List E} {rest : List Located} (hdepth : front.length < depth)
    (h : ρ n front a faults) (hrest : (Grammar.rule n).Ends v rest) :
    L.Run (.rule n) front rest.head? (some a) := by
  induction depth generalizing α front faults rest with
  | zero => cases hdepth
  | succ depth ih =>
    rw [hL.reads n] at h
    refine .rule (run_of_reads_of_rules hL (fun n => ih n) (hL.decided n) h
      (.inr ⟨hL.guarded n, Nat.le_of_lt_succ hdepth⟩) fun t ht => ?_)
    by_contra hextension
    exact Bool.false_ne_true ((hrest t ht).symm.trans
      (hL.extensions n (Bool.of_not_eq_false hextension)))

/-- What a grammar reads is read by a run. -/
theorem run_of_reads (hL : L.IsForeseen v ρ) {g : Grammar R α} (hg : g.isDecided v false = true)
    {tokens : List Located} {a : α} {faults : List E} (h : g.reads ρ tokens a faults) :
    L.Run g tokens ([] : List Located).head? (some a) :=
  run_of_reads_of_rules hL (fun n => run_of_rule hL n) hg h (.inl (Nat.lt_succ_self tokens.length))
    fun t ht => by cases ht

/-! ## Reading whole texts -/

variable {start : Grammar R α} {tokens : List Located}

/-- The result of a run on a whole text. -/
theorem parse_of_run (hL : L.IsForeseen v ρ) (hstart : start.isDecided v false = true)
    {front rest : List Located} {r : Option α} (h : L.Run start front rest.head? r) :
    L.parse start (front ++ rest) = match r, rest with
      | some a, [] => .ok a
      | _, rest => .error rest := by
  have hdepth : start.Suffices v ((front ++ rest).length + 1) front.length :=
    .inl (by rw [List.length_append]; omega)
  have hparser := (h.follows hL hstart _ hdepth rest rfl).parser_eq
  simp only [parse, hparser]
  cases r <;> cases rest <;> rfl

/-- Exactly the texts that the grammar reads are parsed, with the values that it gives them. -/
theorem parse_eq_ok_iff (hL : L.IsForeseen v ρ) (hstart : start.isDecided v false = true) {a : α} :
    L.parse start tokens = .ok a ↔ start.reads ρ tokens a [] := by
  constructor
  · intro hparse
    obtain ⟨front, rest, r, rfl, h⟩ := exists_run hL hstart tokens
    rw [parse_of_run hL hstart h] at hparse
    cases r with
    | none => cases hparse
    | some b =>
      cases rest with
      | nil =>
        obtain rfl := Except.ok.inj hparse
        simpa using h.reads hL b rfl
      | cons t rest => cases hparse
  · intro h
    simpa using parse_of_run hL hstart (run_of_reads hL hstart h)

/-- Some text that the grammar reads begins with the tokens. -/
def IsViable (ρ : {α : Type} → R α → Reading E α) (start : Grammar R α) (front : List Located) : Prop :=
  ∃ more a, start.reads ρ (front ++ more) a []

/-- A parser stops at the first token with which no text goes on. -/
theorem of_parse_eq_error (hL : L.IsForeseen v ρ) (hstart : start.isDecided v false = true)
    (hinhabited : start.isInhabited = true) {rest : List Located}
    (h : L.parse start tokens = .error rest) :
    ∃ front, front ++ rest = tokens ∧ IsViable ρ start front ∧
      ∀ t ∈ rest.head?, ¬ IsViable ρ start (front ++ [t]) := by
  obtain ⟨front, others, r, rfl, hrun⟩ := exists_run hL hstart tokens
  rw [parse_of_run hL hstart hrun] at h
  obtain ⟨rfl, hviable⟩ : others = rest ∧ IsViable ρ start front := by
    cases r with
    | none => exact ⟨Except.error.inj h, hrun.viable hL rfl hinhabited⟩
    | some a =>
      cases others with
      | nil => cases h
      | cons t others => exact ⟨Except.error.inj h, [], a, by simpa using hrun.reads hL a rfl⟩
  refine ⟨front, rfl, hviable, ?_⟩
  rintro t ht ⟨more, a, hreads⟩
  -- The run does not see what is behind the token, and so it stops in that text too.
  have hstop : L.Run start front (t :: more).head? r := by rwa [Option.mem_def.1 ht] at hrun
  rw [List.append_assoc, List.singleton_append, ← parse_eq_ok_iff hL hstart,
    parse_of_run hL hstart hstop] at hreads
  cases r <;> cases hreads

end

end Language

end FragmentShapes
