import FragmentShapes.Proofs.KeyedList
import FragmentShapes.Proofs.Schema.Document
import FragmentShapes.Proofs.Schema.Names
import FragmentShapes.Schema

/-!
# Registering definitions

`Schema.Extends` says what a schema is after some declarations: the types that they add in order, each
name once, and for each kind of operation the type that was given last. `Schema.registers_applyAll` says
that the definitions of a document extend a schema in this way, up to the first type whose name is taken.
-/

namespace FragmentShapes

open Document
open Token (Located)

/-! ## What declarations say -/

namespace Document.Declaration

/-- The type that is declared. -/
def type? : Declaration → Option Schema.TypeDefinition
  | roots _ => none
  | type t => some t

/-- The type that is given to a kind of operation. -/
def root? (operation : String) : Declaration → Option String
  | roots operations => KeyedList.get? operations operation
  | type _ => none

end Document.Declaration

namespace Schema

/-- The type of a kind of operation. -/
def root? (s : Schema) (operation : String) : Option String :=
  if operation = "query" then s.query
  else if operation = "mutation" then s.mutation
  else if operation = "subscription" then s.subscription
  else none

/-- The type that declarations give to a kind of operation last. -/
def lastRoot (operation : String) (declarations : List Declaration) : Option String :=
  (declarations.filterMap (·.root? operation)).getLast?

/-- The type is a scalar that the schema has built in. -/
def redeclares (s : Schema) (t : TypeDefinition) : Bool :=
  t.isScalar && (s.type? t.name).any (·.isBuiltin)

/-- The types that declarations add to a schema, in order. -/
def added (s : Schema) (declarations : List Declaration) : List TypeDefinition :=
  (declarations.filterMap Declaration.type?).filter (!s.redeclares ·)

/-- The schema `s'` is `s` with all of the declarations. -/
structure Extends (s : Schema) (declarations : List Declaration) (s' : Schema) : Prop where
  types : s'.types = s.types ++ s.added declarations
  nodup : ((s.added declarations).map (·.name)).Nodup
  fresh : ∀ t ∈ s.added declarations, t.name ∉ s.typeNames
  roots : ∀ operation ∈ operationNames,
    s'.root? operation = (lastRoot operation declarations).or (s.root? operation)

/-- The declarations are registered in order, up to a type whose name is taken if there is one; that is the
error. -/
def Registers (s : Schema) (declarations : List Declaration) (outcome : Schema × Option Error) : Prop :=
  ∃ taken rest, declarations = taken ++ rest ∧ s.Extends taken outcome.1 ∧
    (rest = [] ∧ outcome.2 = none ∨
      ∃ t others, rest = .type t :: others ∧ s.redeclares t = false ∧ t.name ∈ outcome.1.typeNames ∧
        outcome.2 = some (.alreadyDefined t.name))

/-! ## Roots -/

theorem ext_root? {s s' : Schema} (htypes : s.types = s'.types)
    (hroots : ∀ operation ∈ operationNames, s.root? operation = s'.root? operation) : s = s' := by
  obtain ⟨types, query, mutation, subscription⟩ := s
  obtain ⟨types', query', mutation', subscription'⟩ := s'
  have hquery := hroots "query" (by decide)
  have hmutation := hroots "mutation" (by decide)
  have hsubscription := hroots "subscription" (by decide)
  simp only [root?] at htypes hquery hmutation hsubscription
  simp_all

theorem root?_setRoot (s : Schema) (operation type : String) {other : String}
    (hother : other ∈ operationNames) :
    (s.setRoot operation type).root? other = if operation = other then some type else s.root? other := by
  simp only [operationNames, List.mem_cons, List.not_mem_nil, or_false] at hother
  unfold setRoot
  rcases hother with rfl | rfl | rfl <;> split_ifs <;> simp_all [root?]

theorem root?_foldl_setRoot (s : Schema) (bindings : List (Located × String)) {operation : String}
    (hoperation : operation ∈ operationNames) :
    (bindings.foldl (fun s binding => s.setRoot binding.1.text binding.2) s).root? operation =
      (KeyedList.get? (KeyedList.ofPairs (bindings.map fun b => (b.1.text, b.2))) operation).or
        (s.root? operation) := by
  induction bindings using List.reverseRecOn with
  | nil => rfl
  | append_singleton bindings binding ih =>
    rw [List.foldl_append, List.map_append, KeyedList.ofPairs, List.foldl_append, ← KeyedList.ofPairs]
    simp only [List.map_cons, List.map_nil, List.foldl_cons, List.foldl_nil]
    rw [root?_setRoot _ _ _ hoperation, ih, KeyedList.get?_put]
    split <;> rfl

/-! ## One definition after the other -/

theorem type?_eq_none_iff {s : Schema} {name : String} : s.type? name = none ↔ name ∉ s.typeNames := by
  simp [type?, typeNames]

theorem added_append (s : Schema) (declarations more : List Declaration) :
    s.added (declarations ++ more) = s.added declarations ++ s.added more := by simp [added]

theorem lastRoot_append (operation : String) (declarations more : List Declaration) :
    lastRoot operation (declarations ++ more) =
      (lastRoot operation more).or (lastRoot operation declarations) := by
  simp [lastRoot, List.getLast?_append]

theorem Extends.refl (s : Schema) : s.Extends [] s where
  types := by simp [added]
  nodup := by simp [added]
  fresh := by simp [added]
  roots _ _ := rfl

/-- No type is declared as a built-in scalar. -/
def Plain (declarations : List Declaration) : Prop :=
  ∀ t, .type t ∈ declarations → t.isBuiltin = false

variable {s s' : Schema} {taken : List Declaration}

theorem isBuiltin_of_mem_added (hplain : Plain taken) {t : TypeDefinition} (ht : t ∈ s.added taken) :
    t.isBuiltin = false := by
  obtain ⟨d, hd, htype⟩ := List.mem_filterMap.1 (List.mem_filter.1 ht).1
  cases d with
  | roots operations => cases htype
  | type u =>
    obtain rfl := Option.some.inj htype
    exact hplain u hd

/-- A schema has no other scalars built in than the one that it extends. -/
theorem Extends.redeclares_eq (h : s.Extends taken s') (hplain : Plain taken) (t : TypeDefinition) :
    s'.redeclares t = s.redeclares t := by
  have hadded : ((s.added taken).find? (·.name = t.name)).any (·.isBuiltin) = false := by
    cases hfind : (s.added taken).find? (·.name = t.name) with
    | none => rfl
    | some u => exact isBuiltin_of_mem_added hplain (List.mem_of_find?_eq_some hfind)
  rw [redeclares, redeclares, type?, type?, h.types, List.find?_append]
  cases s.types.find? (·.name = t.name) with
  | none => simp [hadded]
  | some u => rfl

theorem typeNames_of_extends (h : s.Extends taken s') :
    s'.typeNames = s.typeNames ++ (s.added taken).map (·.name) := by
  rw [typeNames, typeNames, h.types, List.map_append]

theorem Extends.roots_snoc (h : s.Extends taken s') (bindings : List (Located × String)) :
    s.Extends (taken ++ [.roots (KeyedList.ofPairs (bindings.map fun b => (b.1.text, b.2)))])
      (bindings.foldl (fun s binding => s.setRoot binding.1.text binding.2) s') := by
  have htypes : s.added [.roots (KeyedList.ofPairs (bindings.map fun b => (b.1.text, b.2)))] = [] := rfl
  constructor
  · rw [foldl_setRoot_types, h.types, added_append, htypes, List.append_nil]
  · rw [added_append, htypes, List.append_nil]
    exact h.nodup
  · rw [added_append, htypes, List.append_nil]
    exact h.fresh
  · intro operation hoperation
    rw [root?_foldl_setRoot _ _ hoperation, h.roots operation hoperation, lastRoot_append,
      Option.or_assoc]
    congr 1
    simp only [lastRoot, List.filterMap_cons, Declaration.root?, List.filterMap_nil]
    cases KeyedList.get? _ operation <;> rfl

theorem Extends.type_snoc (h : s.Extends taken s') (hplain : Plain taken) {t : TypeDefinition}
    (hname : t.name ∉ s'.typeNames) :
    s.Extends (taken ++ [.type t]) { s' with types := s'.types ++ [t] } := by
  have hnew : s.added [.type t] = [t] := by
    have hnone := type?_eq_none_iff.2 hname
    have hnot : s'.redeclares t = false := by simp [redeclares, hnone]
    rw [h.redeclares_eq hplain] at hnot
    simp [added, Declaration.type?, hnot]
  -- A new name is none of the schema that is extended, and none of those that were added.
  rw [typeNames_of_extends h, List.mem_append, not_or] at hname
  constructor
  · rw [h.types, added_append, hnew, List.append_assoc]
  · rw [added_append, hnew, List.map_append, List.nodup_append]
    refine ⟨h.nodup, by simp, ?_⟩
    intro name hold other hother heq
    rw [List.map_singleton, List.mem_singleton] at hother
    exact hname.2 (hother ▸ heq ▸ hold)
  · rw [added_append, hnew]
    intro u hu
    rcases List.mem_append.1 hu with hu | hu
    · exact h.fresh u hu
    · rw [List.mem_singleton.1 hu]
      exact hname.1
  · intro operation hoperation
    have hlast : lastRoot operation [.type t] = none := rfl
    rw [lastRoot_append, hlast, Option.none_or]
    exact h.roots operation hoperation

theorem Extends.redeclared_snoc (h : s.Extends taken s') {t : TypeDefinition}
    (ht : s.redeclares t = true) : s.Extends (taken ++ [.type t]) s' := by
  have hnothing : s.added [.type t] = [] := by simp [added, Declaration.type?, ht]
  constructor
  · rw [added_append, hnothing, List.append_nil]
    exact h.types
  · rw [added_append, hnothing, List.append_nil]
    exact h.nodup
  · rw [added_append, hnothing, List.append_nil]
    exact h.fresh
  · intro operation hoperation
    have hlast : lastRoot operation [.type t] = none := rfl
    rw [lastRoot_append, hlast, Option.none_or]
    exact h.roots operation hoperation

/-- What one definition does to a schema that others have extended. -/
theorem Extends.apply (h : s.Extends taken s') (hplain : Plain taken) (d : Definition) :
    match s'.apply d with
    | .ok s'' => s.Extends (taken ++ d.declaration?.toList) s''
    | .error e => ∃ t, d.declaration? = some (.type t) ∧ s.redeclares t = false ∧
        t.name ∈ s'.typeNames ∧ e = .alreadyDefined t.name := by
  cases d with
  | roots bindings => exact h.roots_snoc bindings
  | directive modifier =>
    rw [show (Definition.directive modifier).declaration?.toList = [] from rfl, List.append_nil]
    exact h
  | type t line =>
    rw [Schema.apply, define]
    cases hexisting : s'.type? t.name with
    | none => exact h.type_snoc hplain (type?_eq_none_iff.1 hexisting)
    | some existing =>
      have hredeclares : s.redeclares t = (existing.isBuiltin && t.isScalar) := by
        rw [← h.redeclares_eq hplain, redeclares, hexisting, Option.any_some, Bool.and_comm]
      by_cases hbuiltin : (existing.isBuiltin && t.isScalar) = true
      · simp only [hbuiltin, if_true]
        exact h.redeclared_snoc (hredeclares.trans hbuiltin)
      · simp only [hbuiltin, Bool.false_eq_true, if_false]
        refine ⟨t, rfl, hredeclares.trans (Bool.eq_false_iff.2 hbuiltin), ?_, rfl⟩
        by_contra hname
        rw [type?_eq_none_iff.2 hname] at hexisting
        cases hexisting

/-- The declarations of definitions that are applied one after the other, up to the first that fails. -/
def declared (s : Schema) : List Definition → List Declaration
  | [] => []
  | d :: ds =>
    match s.apply d with
    | .ok s' => d.declaration?.toList ++ s'.declared ds
    | .error _ => []

theorem declared_subset (s : Schema) (ds : List Definition) {d : Declaration} (hd : d ∈ s.declared ds) :
    d ∈ ds.filterMap Definition.declaration? := by
  induction ds generalizing s with
  | nil => cases hd
  | cons e ds ih =>
    rw [declared] at hd
    cases hs : s.apply e with
    | error err => simp [hs] at hd
    | ok s' =>
      simp only [hs, List.mem_append, Option.mem_toList] at hd
      rw [List.filterMap_cons]
      rcases hd with hd | hd
      · simp [hd]
      · have hmem := ih s' hd
        cases e.declaration? <;> simp [hmem]

theorem Plain.append {more : List Declaration} (h : Plain taken) (hmore : Plain more) :
    Plain (taken ++ more) := by
  intro t ht
  rcases List.mem_append.1 ht with ht | ht
  · exact h t ht
  · exact hmore t ht

/-- A run of definitions extends a schema by what they declare; where it ends early, the name of a type is
taken. -/
theorem Extends.applyAll (h : s.Extends taken s') (hplain : Plain taken) {ds : List Definition}
    (hds : Plain (ds.filterMap Definition.declaration?)) :
    s.Extends (taken ++ s'.declared ds) (s'.applyAll ds).1 ∧
      ∃ rest, ds.filterMap Definition.declaration? = s'.declared ds ++ rest ∧
        (rest = [] ∧ (s'.applyAll ds).2 = none ∨
          ∃ t others, rest = .type t :: others ∧ s.redeclares t = false ∧
            t.name ∈ (s'.applyAll ds).1.typeNames ∧
            (s'.applyAll ds).2 = some (.alreadyDefined t.name)) := by
  -- Along the definitions, where what they have declared so far moves over to what is taken.
  induction ds generalizing taken s' with
  | nil => exact ⟨by simpa [declared, Schema.applyAll] using h, [], rfl, .inl ⟨rfl, rfl⟩⟩
  | cons d ds ih =>
    have hstep := h.apply hplain d
    have hcons : (d :: ds).filterMap Definition.declaration? =
        d.declaration?.toList ++ ds.filterMap Definition.declaration? := by
      cases hd : d.declaration? <;> simp [hd]
    rw [hcons] at hds
    have hd : Plain d.declaration?.toList := fun t ht => hds t (List.mem_append_left _ ht)
    have hrest : Plain (ds.filterMap Definition.declaration?) :=
      fun t ht => hds t (List.mem_append_right _ ht)
    rw [Schema.applyAll, declared, hcons]
    cases happly : s'.apply d with
    | ok s'' =>
      rw [happly] at hstep
      obtain ⟨hextends, rest, heq, hend⟩ := ih hstep (hplain.append hd) hrest
      rw [List.append_assoc] at hextends
      exact ⟨hextends, rest, by rw [heq, List.append_assoc], hend⟩
    | error e =>
      rw [happly] at hstep
      obtain ⟨t, hdeclared, hredeclares, hname, rfl⟩ := hstep
      refine ⟨by simpa using h, _, rfl, .inr ⟨t, ds.filterMap Definition.declaration?, ?_, hredeclares,
        hname, rfl⟩⟩
      simp [hdeclared]

/-- The definitions of a document are registered in order. -/
theorem registers_applyAll (s : Schema) {ds : List Definition}
    (hds : Plain (ds.filterMap Definition.declaration?)) :
    s.Registers (ds.filterMap Definition.declaration?) (s.applyAll ds) := by
  have hnone : Plain [] := fun t ht => by cases ht
  obtain ⟨hextends, rest, heq, hend⟩ := (Extends.refl s).applyAll hnone hds
  exact ⟨s.declared ds, rest, heq, by simpa using hextends, hend⟩

/-! ## Documents declare no built-in scalars -/

/-- The definition declares no built-in scalar. -/
def Definition.IsPlain (d : Definition) : Prop := Plain d.declaration?.toList

/-- A grammar whose values satisfy `post`, whatever its tokens and rules are. -/
abbrev Always {α : Type} (g : Phrase α) (post : α → Prop) : Prop :=
  g.Ensures (fun _ => True) (fun _ _ => True) post

/-- What remains of a definition behind its description declares no built-in scalar. -/
def Described.IsPlain (d : Described) : Prop := ∀ description, (d description).IsPlain

theorem isPlain_type (name : String) {body : TypeBody} (line : Nat)
    (hbody : ∀ description, TypeDefinition.isBuiltin ⟨name, description, body⟩ = false) :
    Described.IsPlain fun description => .type ⟨name, description, body⟩ line := by
  intro description t ht
  obtain rfl : t = ⟨name, description, body⟩ := by simpa [Definition.declaration?] using ht
  exact hbody description

theorem definition_isPlain : Always definition Definition.IsPlain := by
  have hdescribed : Always (rootsDefinition <|> objectDefinition <|> interfaceDefinition <|>
      unionDefinition <|> enumDefinition <|> inputDefinition <|> scalarDefinition <|>
      directiveDefinition) Described.IsPlain := by
    simp only [Always, rootsDefinition, objectDefinition, interfaceDefinition, unionDefinition,
      enumDefinition, inputDefinition, scalarDefinition, directiveDefinition, Grammar.ensures_orElse,
      Grammar.ensures_seq, Grammar.ensures_map, Grammar.ensures_seqRight]
    refine ⟨?roots, ?object, ?interface, ?union, ?enum, ?input, ?scalar, ?directive⟩
    all_goals repeat refine Grammar.ensures_of_forall _ fun _ => ?_
    case roots => intro _ t ht; simp [Definition.declaration?] at ht
    case directive => intro _ t ht; simp [Definition.declaration?] at ht
    all_goals exact isPlain_type _ _ fun _ => rfl
  refine Grammar.ensures_of_forall description fun text => ?_
  exact hdescribed.mono fun d hd => hd text

/-- What is read from tokens declares no built-in scalar. -/
theorem plain_of_ofTokens {stream : Token.Stream} {ds : List Definition} (h : ofTokens stream = .ok ds) :
    Plain (ds.filterMap Definition.declaration?) := by
  have hall : ∀ d ∈ ds, d.IsPlain := by
    have hparse := parse_of_parseChecked h
    unfold Document.parse at hparse
    split at hparse <;> cases hparse
    next hparse =>
    refine Language.parse_ensures (P := fun _ => True) (Q := fun _ _ => True) ?_
      (Grammar.ensures_many definition_isPlain) (fun _ _ => trivial) hparse
    exact fun r => Grammar.ensures_of_forall _ fun _ => trivial
  intro t ht
  obtain ⟨d, hd, hdeclares⟩ := List.mem_filterMap.1 ht
  exact hall d hd t (by simp [hdeclares])

/-! ## Derivations and what becomes of them -/

/-- A derivation in which nothing is rejected is read, and the schema is extended by its declarations. -/
theorem registers_of_derivation {tokens : List Located} {tree : Tree Nonterminal}
    {declarations : List Declaration} (h : (tree, declarations, []) ∈ derivations .schemaDocument tokens) :
    ∃ ds, ofTokens ⟨tokens, none⟩ = .ok ds ∧ ∀ s : Schema, s.Registers declarations (s.applyAll ds) := by
  obtain ⟨ds, hparse, hjudge⟩ := starts_document.derivations_iff.1 ⟨tree, h⟩
  obtain ⟨rfl, hfaults⟩ := Prod.mk.inj hjudge
  have hds : ofTokens ⟨tokens, none⟩ = .ok ds := parseChecked_eq_ok_iff.2 ⟨hparse, hfaults⟩
  exact ⟨ds, hds, fun s => registers_applyAll s (plain_of_ofTokens hds)⟩

/-- The definitions of a schema document are read from exactly those tokens that can be derived with
nothing rejected. Of what is rejected, the first is the error. There is one derivation at most, and what
it declares is what a schema is extended by. -/
theorem ofTokens_registers_derivation (tokens : List Located) :
    (derivations .schemaDocument tokens).Subsingleton ∧
    ((∃ ds, ofTokens ⟨tokens, none⟩ = .ok ds) ↔
      ∃ tree declarations, (tree, declarations, []) ∈ derivations .schemaDocument tokens) ∧
    ∀ tree declarations faults, (tree, declarations, faults) ∈ derivations .schemaDocument tokens →
      match faults with
      | [] => ∃ ds, ofTokens ⟨tokens, none⟩ = .ok ds ∧
          ∀ s : Schema, s.Registers declarations (s.applyAll ds)
      | fault :: _ => ofTokens ⟨tokens, none⟩ = .error fault := by
  refine ⟨subsingleton_derivations _ _, Iff.intro ?sound ?complete, ?outcome⟩
  case sound =>
    rintro ⟨ds, hds⟩
    obtain ⟨hparse, hfaults⟩ := parseChecked_eq_ok_iff.1 hds
    obtain ⟨tree, h⟩ := starts_document.derivations_iff.2
      ⟨ds, hparse, Prod.ext (y := (_, [])) rfl hfaults⟩
    exact ⟨tree, _, h⟩
  case complete =>
    rintro ⟨tree, declarations, h⟩
    obtain ⟨ds, hds, _⟩ := registers_of_derivation h
    exact ⟨ds, hds⟩
  case outcome =>
    intro tree declarations faults h
    cases faults with
    | nil => exact registers_of_derivation h
    | cons fault others =>
      obtain ⟨ds, hparse, hjudge⟩ := starts_document.derivations_iff.1 ⟨tree, h⟩
      exact parseChecked_eq_error hparse (Prod.mk.inj hjudge).2

-- The block of fields is complete before the operation type is.
example : ofTokens (Token.lex "type A { a: Int a: Int } schema { quest: A }") =
    .error (.duplicateField "a" 1) := by
  decide +kernel

end Schema

end FragmentShapes
