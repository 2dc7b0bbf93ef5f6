import FragmentShapes.Proofs.Schema.Lookup

/-!
# Kinds of types

Each name is that of at most one kind of type. `Schema.admits` says for which concrete types a type
condition holds; for abstract types these are the possible types.
-/

namespace FragmentShapes

namespace Schema

/-- A condition on the type holds for values of the concrete type. -/
def admits (s : Schema) (type on : String) : Bool :=
  on = type || s.isInterface on && s.implements type on || (s.unionMembersOf on).contains type

variable {s : Schema} {name type on : String}

theorem isAbstract_eq (s : Schema) (name : String) :
    s.isAbstract name = (s.isInterface name || s.isUnion name) := by
  rw [isAbstract, isInterface, isUnion, body?]
  cases s.type? name with
  | none => rfl
  | some t => cases h : t.body <;> simp [TypeDefinition.isAbstract, h]

theorem hasType_eq (s : Schema) (name : String) : s.hasType name = (s.body? name).isSome := by
  rw [hasType, body?, Option.isSome_map]

theorem isObject_iff : s.isObject name = true ↔ ∃ interfaces fields,
    s.body? name = some (.object interfaces fields) := by
  rw [isObject]
  split <;> simp_all

theorem hasType_of_isObject (h : s.isObject name = true) : s.hasType name = true := by
  obtain ⟨_, _, hbody⟩ := isObject_iff.1 h
  rw [hasType_eq, hbody, Option.isSome_some]

theorem hasType_of_isAbstract (h : s.isAbstract name = true) : s.hasType name = true := by
  rw [isAbstract] at h
  split at h
  · next t ht => rw [hasType, ht, Option.isSome_some]
  · cases h

theorem isUnion_of_isObject (h : s.isObject name = true) : s.isUnion name = false := by
  obtain ⟨_, _, hbody⟩ := isObject_iff.1 h
  rw [isUnion, hbody]

theorem isInterface_of_isObject (h : s.isObject name = true) : s.isInterface name = false := by
  obtain ⟨_, _, hbody⟩ := isObject_iff.1 h
  rw [isInterface, hbody]

theorem isAbstract_of_isObject (h : s.isObject name = true) : s.isAbstract name = false := by
  rw [isAbstract_eq, isUnion_of_isObject h, isInterface_of_isObject h, Bool.or_false]

theorem mem_typeNames_of_hasType (h : s.hasType name = true) : name ∈ s.typeNames := by
  obtain ⟨t, ht⟩ := Option.isSome_iff_exists.1 h
  have hname : t.name = name := by simpa using List.find?_some ht
  exact List.mem_map.2 ⟨t, mem_types_of_type? ht, hname⟩

theorem admits_self (s : Schema) (type : String) : s.admits type type = true := by
  simp [admits]

/-- Conditions on a type hold for the values of an object that are possible for the type. -/
theorem mem_possibleTypes_iff_admits (hobject : s.isObject type = true)
    (hon : s.isAbstract on = true) : type ∈ s.possibleTypes on ↔ s.admits type on = true := by
  have hne : on ≠ type := by
    rintro rfl
    rw [isAbstract_of_isObject hobject] at hon
    cases hon
  rw [isAbstract_eq, isInterface, isUnion] at hon
  rw [possibleTypes, admits, isUnion, isInterface, unionMembersOf]
  split at hon
  · next interfaces fields hbody =>
    simp [hbody, hne, implementers, mem_typeNames_of_hasType (hasType_of_isObject hobject)]
  · split at hon
    · next members => simp [hne]
    · cases hon

theorem admits_eq_of_not_isAbstract (hon : s.isAbstract on = false) :
    s.admits type on = decide (on = type) := by
  rw [isAbstract_eq, Bool.or_eq_false_iff] at hon
  have hmembers : s.unionMembersOf on = [] := by
    have hunion := hon.2
    rw [isUnion] at hunion
    rw [unionMembersOf]
    split <;> simp_all
  rw [admits, hon.1, hmembers]
  simp

theorem hasType_of_mem_possibleTypes (h : type ∈ s.possibleTypes name) : s.hasType name = true := by
  rw [hasType_eq]
  rw [possibleTypes, isUnion, isInterface, isObject, unionMembersOf] at h
  cases hbody : s.body? name with
  | none => simp [hbody] at h
  | some body => rfl

/-- A type that is possible for another one is admitted by it. -/
theorem admits_of_mem_possibleTypes (hobject : s.isObject type = true)
    (h : type ∈ s.possibleTypes name) : s.admits type name = true := by
  by_cases habstract : s.isAbstract name = true
  · exact (mem_possibleTypes_iff_admits hobject habstract).1 h
  · rw [Bool.not_eq_true] at habstract
    have hkinds := habstract
    rw [isAbstract_eq, Bool.or_eq_false_iff] at hkinds
    rw [admits_eq_of_not_isAbstract habstract, decide_eq_true_eq]
    rw [possibleTypes, hkinds.1, hkinds.2] at h
    simp only [Bool.false_eq_true, if_false] at h
    split_ifs at h
    · exact (List.mem_singleton.1 h).symm
    · cases h

end Schema

end FragmentShapes
