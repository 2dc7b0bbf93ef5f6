import FragmentShapes.Proofs.Schema.Names
import FragmentShapes.Schema.Lookup

/-!
# Answers of a schema

What a schema answers comes from the definitions in it: a field that it finds is one that some type
declares, and a possible type is a name that some definition gives.
-/

namespace FragmentShapes

namespace Schema

theorem mem_types_of_type? {s : Schema} {name : String} {t : TypeDefinition}
    (h : s.type? name = some t) : t ∈ s.types := List.mem_of_find?_eq_some h

theorem exists_of_body? {s : Schema} {name : String} {body : TypeBody}
    (h : s.body? name = some body) : ∃ t ∈ s.types, t.name = name ∧ t.body = body := by
  obtain ⟨t, ht, rfl⟩ := Option.map_eq_some_iff.1 h
  exact ⟨t, mem_types_of_type? ht, by simpa using List.find?_some ht, rfl⟩

theorem known_eq_some {s : Schema} {f g : FieldDefinition} (h : s.known f = some g) : g = f := by
  unfold known at h
  split_ifs at h
  exact (Option.some.inj h).symm

theorem mem_ownFields_of_interfaceField? {s : Schema} {interface name : String} {f : FieldDefinition}
    (h : s.interfaceField? interface name = some f) : ∃ t ∈ s.types, f ∈ t.ownFields := by
  unfold interfaceField? at h
  split at h
  · next _ fields hbody =>
    obtain ⟨g, hg, hf⟩ := Option.bind_eq_some_iff.1 h
    obtain ⟨t, ht, -, hb⟩ := exists_of_body? hbody
    rw [known_eq_some hf]
    exact ⟨t, ht, by simpa [TypeDefinition.ownFields, hb] using List.mem_of_find?_eq_some hg⟩
  · cases h

theorem commonField_eq_some {s : Schema} {lookup : String → Option FieldDefinition}
    {members : List String} {f : FieldDefinition} (h : s.commonField lookup members = some f) :
    ∃ first ∈ members, lookup first = some f := by
  cases members with
  | nil => cases h
  | cons first rest =>
    obtain ⟨g, hg, h⟩ := Option.bind_eq_some_iff.1 h
    split_ifs at h
    cases h
    exact ⟨first, by simp, hg⟩

/-- The definition that a schema gives for a field is one that some type of it declares. -/
theorem mem_ownFields_of_fieldAmong {s : Schema} {available : List TypeDefinition}
    (havailable : ∀ t ∈ available, t ∈ s.types) {type name : String} {f : FieldDefinition}
    (h : s.fieldAmong available type name = some f) : ∃ t ∈ s.types, f ∈ t.ownFields := by
  -- By the number of types available: a member of a union is searched without the union.
  induction hlen : available.length using Nat.strongRecOn generalizing available type with
  | _ n ih =>
    rw [fieldAmong] at h
    split at h
    · cases h
    · next t ht =>
      have hown {g : FieldDefinition} (hg : t.ownField? name = some g) : ∃ t ∈ s.types, g ∈ t.ownFields :=
        ⟨t, havailable t (List.mem_of_find?_eq_some ht), List.mem_of_find?_eq_some hg⟩
      dsimp only at h
      split at h
      · split at h
        · next own hfield =>
          rw [known_eq_some h]
          exact hown hfield
        · obtain ⟨interface, -, hinterface⟩ := List.exists_of_findSome?_eq_some h
          exact mem_ownFields_of_interfaceField? hinterface
      · obtain ⟨g, hg, hf⟩ := Option.bind_eq_some_iff.1 h
        rw [known_eq_some hf]
        exact hown hg
      · obtain ⟨first, -, hfirst⟩ := commonField_eq_some h
        have hrest : ∀ u ∈ without type available, u ∈ s.types :=
          fun u hu => havailable u (List.mem_filter.1 hu).1
        exact ih _ (hlen ▸ length_without_lt ht) hrest hfirst rfl
      · cases h

theorem mem_ownFields_of_field? {s : Schema} {type name : String} {f : FieldDefinition}
    (h : s.field? type name = some f) : ∃ t ∈ s.types, f ∈ t.ownFields :=
  mem_ownFields_of_fieldAmong (fun _ ht => ht) h

theorem WellNamed.of_mem_possibleTypes {s : Schema} (hs : s.WellNamed) {name type : String}
    (h : type ∈ s.possibleTypes name) : Text.isAsciiName type = true := by
  unfold possibleTypes at h
  split_ifs at h with hunion hinterface hobject
  · unfold unionMembersOf at h
    split at h
    · next members hbody =>
      obtain ⟨t, ht, -, hb⟩ := exists_of_body? hbody
      exact (hs t ht).members members hb type h
    · cases h
  · obtain ⟨hmem, -⟩ := List.mem_filter.1 h
    obtain ⟨t, ht, rfl⟩ := List.mem_map.1 hmem
    exact (hs t ht).name
  · unfold isObject at hobject
    split at hobject
    · next hbody =>
      obtain ⟨t, ht, hname, -⟩ := exists_of_body? hbody
      rw [List.mem_singleton.1 h, ← hname]
      exact (hs t ht).name
    · cases hobject
  · cases h

end Schema

end FragmentShapes
