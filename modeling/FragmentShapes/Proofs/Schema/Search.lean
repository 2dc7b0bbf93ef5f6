import FragmentShapes.Proofs.Schema.CommonField
import Mathlib.Logic.Relation

/-!
# Searching for a field

The search for a field of a type goes from a union to its members and from an object to its interfaces, and
it comes back with nothing from a type that it is inside of already. `Schema.Answers` says what the types
answer in terms of each other, with no mention of a search. `Schema.field?_answers` says that this is what
a search finds: it ends, a type that it comes to answers as it does by itself, whatever the search is
inside of, and a type with itself among its parts, near or far, has no fields.
-/

namespace FragmentShapes.Schema

open Relation

variable {s : Schema} {field : String}

/-! ## What types answer -/

/-- What the types answer for a field, each in terms of the others. -/
structure Answers (s : Schema) (field : String) (answer : String → Option FieldDefinition) : Prop where
  /-- An object answers with the field that it declares. -/
  declared {type interfaces fields own} :
    s.body? type = some (.object interfaces fields) → fields.find? (·.name = field) = some own →
      answer type = s.known own
  /-- Else with the answer of the first of its interfaces that has one. -/
  inherited {type interfaces fields} :
    s.body? type = some (.object interfaces fields) → fields.find? (·.name = field) = none →
      answer type = (interfaces.filter s.isInterface).findSome? answer
  interface {type interfaces fields} :
    s.body? type = some (.interface interfaces fields) →
      answer type = (fields.find? (·.name = field)).bind s.known
  /-- A union answers with its first member, if each other member has an answer that goes with it. -/
  union {type members} :
    s.body? type = some (.union members) → ∀ f, answer type = some f ↔
      ∃ first rest, members = first :: rest ∧ answer first = some f ∧
        ∀ member ∈ rest, ∃ g, answer member = some g ∧ s.compatible f.type g.type = true
  other {type} :
    s.isObject type = false → s.isInterface type = false → s.isUnion type = false → answer type = none

/-! ## Parts -/

/-- The answer for a union is looked for in its members, and that for an object in its interfaces. -/
def IsPart (s : Schema) (part whole : String) : Prop :=
  part ∈ s.unionMembersOf whole ∨ s.implements whole part = true ∧ s.isInterface part = true

theorem exists_type?_of_isPart {part whole : String} (h : s.IsPart part whole) :
    ∃ t, s.type? whole = some t := by
  cases ht : s.type? whole with
  | some t => exact ⟨t, rfl⟩
  | none => simp [IsPart, unionMembersOf, implements, body?, ht] at h

theorem isPart_of_mem {part whole : String} {t : TypeDefinition} {members : List String}
    (ht : s.type? whole = some t) (hbody : t.body = .union members) (hpart : part ∈ members) :
    s.IsPart part whole := by
  refine .inl ?_
  rwa [unionMembersOf, body?, ht, Option.map_some, hbody]

theorem acc_of_isInterface {type : String} (h : s.isInterface type = true) : Acc s.IsPart type := by
  refine Acc.intro _ fun part hpart => ?_
  rw [isInterface] at h
  rw [IsPart, unionMembersOf, implements] at hpart
  split at h
  · next hbody => simp [hbody] at hpart
  · cases h

theorem not_transGen_of_acc {type : String} (h : Acc s.IsPart type) :
    ¬ TransGen s.IsPart type type := by
  have hacc := h.transGen
  clear h
  induction hacc with
  | intro type _ ih => exact fun hcycle => ih type hcycle hcycle

/-! ## Visits -/

/-- A type that a search has come to, and the types that it is inside of there. -/
structure Visit where
  inside : List String
  type : String

/-- The search goes on to a part of the type, unless it is inside the type already. -/
structure Follows (s : Schema) (next visit : Visit) : Prop where
  entered : visit.type ∉ visit.inside
  part : s.IsPart next.type visit.type
  inside : next.inside = visit.type :: visit.inside

/-- The types that a search can still go into. -/
def available (s : Schema) (inside : List String) : List TypeDefinition :=
  s.types.filter (·.name ∉ inside)

/-- What the search answers at a visit. -/
def answer (s : Schema) (field : String) (visit : Visit) : Option FieldDefinition :=
  s.fieldAmong (s.available visit.inside) visit.type field

theorem available_cons (s : Schema) (type : String) (inside : List String) :
    s.available (type :: inside) = without type (s.available inside) := by
  rw [available, available, without, List.filter_filter]
  exact List.filter_congr fun t _ => by simp [not_or]

theorem find?_available {type : String} {inside : List String} (h : type ∉ inside) :
    (s.available inside).find? (·.name = type) = s.type? type :=
  find?_name_filter fun _ ht => decide_eq_true (ht ▸ h)

theorem field?_eq_answer (s : Schema) (type field : String) :
    s.field? type field = s.answer field ⟨[], type⟩ := by
  have hall : s.available [] = s.types := by simp [available]
  rw [field?, answer, hall]

theorem answer_of_mem {visit : Visit} (h : visit.type ∈ visit.inside) :
    s.answer field visit = none := by
  refine fieldAmong_of_find?_eq_none (List.find?_eq_none.2 fun t ht hname => ?_) field
  rw [available, List.mem_filter, decide_eq_true_eq] at ht
  rw [decide_eq_true_eq] at hname
  exact ht.2 (hname ▸ h)

theorem answer_of_type? {visit : Visit} {t : TypeDefinition} (hentered : visit.type ∉ visit.inside)
    (ht : s.type? visit.type = some t) :
    s.answer field visit =
      match t.body with
      | .object interfaces _ =>
        match t.ownField? field with
        | some own => s.known own
        | none => interfaces.findSome? (s.interfaceField? · field)
      | .interface .. => (t.ownField? field).bind s.known
      | .union members =>
        s.commonField (fun member => s.answer field ⟨visit.type :: visit.inside, member⟩) members
      | _ => none := by
  refine (fieldAmong_of_find? ((find?_available hentered).trans ht) field).trans ?_
  cases t.body with
  | union members =>
    have hinside (member : String) : s.fieldAmong (without visit.type (s.available visit.inside)) member
        field = s.answer field ⟨visit.type :: visit.inside, member⟩ := by
      rw [answer, available_cons]
    exact congrArg (s.commonField · members) (funext hinside)
  | _ => rfl

theorem answer_of_type?_eq_none {visit : Visit} (ht : s.type? visit.type = none) :
    s.answer field visit = none := by
  refine fieldAmong_of_find?_eq_none (List.find?_eq_none.2 fun t hmem => ?_) field
  exact List.find?_eq_none.1 ht t (List.mem_filter.1 hmem).1

/-! ## The search ends -/

theorem length_available_lt {next visit : Visit} (h : s.Follows next visit) :
    (s.available next.inside).length < (s.available visit.inside).length := by
  obtain ⟨t, ht⟩ := exists_type?_of_isPart h.part
  rw [h.inside, available_cons]
  exact length_without_lt ((find?_available h.entered).trans ht)

theorem wellFounded_follows (s : Schema) : WellFounded s.Follows :=
  Subrelation.wf length_available_lt
    (InvImage.wf (fun visit : Visit => (s.available visit.inside).length) Nat.lt_wfRel.wf)

/-- A search finds something only where it goes into parts that end. -/
theorem acc_of_answer {visit : Visit} {f : FieldDefinition} (h : s.answer field visit = some f) :
    Acc s.IsPart visit.type := by
  induction visit using (wellFounded_follows s).induction generalizing f with
  | _ visit ih =>
    have hentered : visit.type ∉ visit.inside := by
      intro hmem
      rw [answer_of_mem hmem] at h
      cases h
    refine Acc.intro _ fun part hpart => ?_
    -- The members of a union all give an answer, and what interfaces declare is not searched
    -- further.
    rcases hpart with hmember | ⟨-, hinterface⟩
    · obtain ⟨t, ht⟩ := exists_type?_of_isPart (.inl hmember)
      rw [unionMembersOf, body?, ht, Option.map_some] at hmember
      rw [answer_of_type? hentered ht] at h
      cases hbody : t.body with
      | union members =>
        rw [hbody] at hmember h
        obtain ⟨g, hg, -⟩ := compatible_of_commonField h part hmember
        exact ih ⟨visit.type :: visit.inside, part⟩
          ⟨hentered, isPart_of_mem ht hbody hmember, rfl⟩ hg
      | _ =>
        rw [hbody] at hmember
        cases hmember
    · exact acc_of_isInterface hinterface

/-! ## What the search is inside of makes no difference -/

theorem commonField_congr {lookup lookup' : String → Option FieldDefinition} {members : List String}
    (h : ∀ member ∈ members, lookup member = lookup' member) :
    s.commonField lookup members = s.commonField lookup' members := by
  cases members with
  | nil => rfl
  | cons first rest =>
    obtain ⟨hfirst, hrest⟩ := List.forall_mem_cons.1 h
    have hall (f : FieldDefinition) :
        (rest.all fun member => (lookup member).any fun g => s.compatible f.type g.type) =
          rest.all fun member => (lookup' member).any fun g => s.compatible f.type g.type := by
      rw [Bool.eq_iff_iff, List.all_eq_true, List.all_eq_true]
      exact forall₂_congr fun member hmember => by rw [hrest member hmember]
    simp only [commonField, hfirst, hall]

/-- Where the parts end and the search is inside of none of them, it answers like one from the start. -/
theorem answer_of_acc {visit : Visit} (hacc : Acc s.IsPart visit.type)
    (hinside : ∀ part, ReflTransGen s.IsPart part visit.type → part ∉ visit.inside) :
    s.answer field visit = s.field? visit.type field := by
  obtain ⟨inside, type⟩ := visit
  dsimp only at hacc hinside ⊢
  induction hacc generalizing inside with
  | intro type hparts ih =>
    have hentered : type ∉ inside := hinside type .refl
    have hcycle : ¬ TransGen s.IsPart type type := not_transGen_of_acc (.intro type hparts)
    -- inside the type, the search is inside of no part of a member
    have hmember {member : String} {outer : List String} (hpart : s.IsPart member type)
        (houter : ∀ part, ReflTransGen s.IsPart part type → part ∉ outer) :
        s.answer field ⟨type :: outer, member⟩ = s.field? member field := by
      refine ih member hpart _ fun part hreach hmem => ?_
      rcases List.mem_cons.1 hmem with rfl | hmem
      · exact hcycle (.tail' hreach hpart)
      · exact houter part (hreach.tail hpart) hmem
    cases ht : s.type? type with
    | none => rw [field?_eq_answer, answer_of_type?_eq_none ht, answer_of_type?_eq_none ht]
    | some t =>
      rw [field?_eq_answer, answer_of_type? hentered ht, answer_of_type? List.not_mem_nil ht]
      cases hbody : t.body with
      | union members =>
        refine commonField_congr fun member hmem => ?_
        have hpart : s.IsPart member type := isPart_of_mem ht hbody hmem
        rw [hmember hpart hinside, hmember hpart fun _ _ => List.not_mem_nil]
      | _ => rfl

/-- A search is inside of types that its type is a part of. -/
theorem transGen_of_mem_inside {type : String} {visit : Visit} (h : ReflTransGen s.Follows visit ⟨[], type⟩) :
    ∀ whole ∈ visit.inside, TransGen s.IsPart visit.type whole := by
  induction h using ReflTransGen.head_induction_on with
  | refl => exact fun whole hmem => absurd hmem List.not_mem_nil
  | head hstep _ ih =>
    intro whole hmem
    rw [hstep.inside] at hmem
    rcases List.mem_cons.1 hmem with rfl | hmem
    · exact .single hstep.part
    · exact .head hstep.part (ih whole hmem)

theorem answer_of_reached {type : String} {visit : Visit} (h : ReflTransGen s.Follows visit ⟨[], type⟩) :
    s.answer field visit = s.field? visit.type field := by
  by_cases hacc : Acc s.IsPart visit.type
  · refine answer_of_acc hacc fun part hreach hmem => ?_
    exact not_transGen_of_acc hacc
      (TransGen.trans_left (transGen_of_mem_inside h part hmem) hreach)
  · have hnone : ∀ v : Visit, v.type = visit.type → s.answer field v = none := by
      intro v hv
      refine Option.eq_none_iff_forall_ne_some.2 fun f hf => hacc ?_
      exact hv ▸ acc_of_answer hf
    rw [hnone visit rfl, field?_eq_answer, hnone ⟨[], visit.type⟩ rfl]

/-! ## What the search finds -/

theorem commonField_eq_some_iff {lookup : String → Option FieldDefinition} {members : List String}
    {f : FieldDefinition} : s.commonField lookup members = some f ↔
      ∃ first rest, members = first :: rest ∧ lookup first = some f ∧
        ∀ member ∈ rest, ∃ g, lookup member = some g ∧ s.compatible f.type g.type = true := by
  cases members with
  | nil => simp [commonField]
  | cons first rest =>
    simp only [commonField, Option.bind_eq_some_iff, Option.ite_none_right_eq_some, List.all_eq_true,
      Option.any_eq_true, List.cons.injEq]
    constructor
    · rintro ⟨g, hfirst, hrest, hg⟩
      cases hg
      exact ⟨first, rest, ⟨rfl, rfl⟩, hfirst, hrest⟩
    · rintro ⟨_, _, ⟨rfl, rfl⟩, hfirst, hrest⟩
      exact ⟨f, hfirst, hrest, rfl⟩

theorem interfaceField?_eq {interface : String} (h : s.isInterface interface = true) (field : String) :
    s.interfaceField? interface field = s.field? interface field := by
  rw [isInterface] at h
  split at h
  · next hbody =>
    obtain ⟨t, ht, hkind⟩ := Option.map_eq_some_iff.1 hbody
    rw [field?_eq_answer, answer_of_type? List.not_mem_nil ht, interfaceField?, hbody,
      TypeDefinition.ownField?, TypeDefinition.ownFields, hkind]
  · cases h

theorem interfaceField?_eq_none {interface : String} (h : s.isInterface interface = false)
    (field : String) : s.interfaceField? interface field = none := by
  rw [isInterface] at h
  rw [interfaceField?]
  split
  · next hbody => simp [hbody] at h
  · rfl

theorem findSome?_interfaceField? (s : Schema) (interfaces : List String) (field : String) :
    interfaces.findSome? (s.interfaceField? · field) =
      (interfaces.filter s.isInterface).findSome? (s.field? · field) := by
  induction interfaces with
  | nil => rfl
  | cons interface rest ih =>
    cases h : s.isInterface interface with
    | true =>
      rw [List.filter_cons_of_pos h, List.findSome?_cons, List.findSome?_cons, ih, interfaceField?_eq h]
    | false =>
      rw [List.filter_cons_of_neg (by simp [h]), List.findSome?_cons, interfaceField?_eq_none h, ih]

theorem field?_of_object {type : String} {interfaces : List String} {fields : List FieldDefinition}
    (hbody : s.body? type = some (.object interfaces fields)) (field : String) :
    s.field? type field = match fields.find? (·.name = field) with
      | some own => s.known own
      | none => (interfaces.filter s.isInterface).findSome? (s.field? · field) := by
  obtain ⟨t, ht, hkind⟩ := Option.map_eq_some_iff.1 hbody
  have hlookUp := fieldAmong_of_find? (s := s) ht field
  rw [TypeDefinition.ownField?, TypeDefinition.ownFields, hkind] at hlookUp
  rw [← findSome?_interfaceField?]
  exact hlookUp

theorem field?_of_union {type : String} {members : List String}
    (hbody : s.body? type = some (.union members)) (field : String) :
    s.field? type field = s.commonField (s.field? · field) members := by
  obtain ⟨t, ht, hkind⟩ := Option.map_eq_some_iff.1 hbody
  rw [field?_eq_answer, answer_of_type? List.not_mem_nil ht, hkind]
  exact commonField_congr fun member hmember => answer_of_reached
    (.single ⟨List.not_mem_nil, isPart_of_mem ht hkind hmember, rfl⟩)

theorem answers_field? (s : Schema) (field : String) : s.Answers field (s.field? · field) where
  declared hbody hown := by rw [field?_of_object hbody, hown]
  inherited hbody hown := by rw [field?_of_object hbody, hown]
  interface hbody := by
    obtain ⟨t, ht, hkind⟩ := Option.map_eq_some_iff.1 hbody
    rw [field?, fieldAmong_of_find? ht, TypeDefinition.ownField?, TypeDefinition.ownFields, hkind]
  union hbody f := by rw [field?_of_union hbody, commonField_eq_some_iff]
  other {type} hobject hinterface hunion := by
    cases ht : s.type? type with
    | none => rw [field?, fieldAmong_of_find?_eq_none ht]
    | some t =>
      rw [isObject, body?, ht] at hobject
      rw [isInterface, body?, ht] at hinterface
      rw [isUnion, body?, ht] at hunion
      rw [field?, fieldAmong_of_find? ht]
      cases hkind : t.body <;> simp [hkind] at hobject hinterface hunion ⊢

/-- Every search ends, and what it finds are the answers of the types. A type that the search comes to
answers there as it does by itself, and no type answers that has a part, near or far, with itself
among its parts. -/
theorem field?_answers (s : Schema) (field : String) :
    WellFounded s.Follows ∧
    s.Answers field (s.field? · field) ∧
    (∀ type visit, ReflTransGen s.Follows visit ⟨[], type⟩ →
      s.answer field visit = s.field? visit.type field) ∧
    ∀ type part, ReflTransGen s.IsPart part type → TransGen s.IsPart part part →
      s.field? type field = none := by
  refine ⟨wellFounded_follows s, answers_field? s field, fun _ _ => answer_of_reached, ?_⟩
  intro type part hreach hcycle
  refine Option.eq_none_iff_forall_ne_some.2 fun f hf => ?_
  rw [field?_eq_answer] at hf
  have hacc : Acc s.IsPart part := by
    rcases reflTransGen_iff_eq_or_transGen.1 hreach with rfl | hreach
    · exact acc_of_answer hf
    · exact (acc_of_answer hf).inv_of_transGen hreach
  exact not_transGen_of_acc hacc hcycle

/-- Two unions of each other have no fields. -/
example : field? { types := [{ name := "Pet", body := .union ["Animal"] },
    { name := "Animal", body := .union ["Pet"] }] } "Pet" "name" = none := by cbv

end FragmentShapes.Schema
