import FragmentShapes.Proofs.Selection.Inside
import Mathlib.Data.List.Nodup

/-!
# Distinct names in resolved selections

On a level no two fields have one name and no two variants one type. Its slots have distinct names
unless a field is named like the member of a variant (`Selection.nodup_slotNames_iff`).
-/

namespace FragmentShapes.Selection

variable {c : Context} {below : Below} {parent : Option String}

/-! ## Names of one level -/

/-- No two fields of the level have one name, and no two variants one type. -/
structure DistinctLevel (sel : Selection) : Prop where
  fields : sel.names.Nodup
  variants : (sel.variants.map (·.typeName)).Nodup

theorem nodup_names_resolveFields (uses : List FieldUse) :
    ((resolveFields c below parent (fieldGroups uses)).value.map (·.info.name)).Nodup := by
  rw [map_name_resolveFields, fieldGroups, KeyedList.map_fst_groupPairs]
  exact (KeyedList.nodup_eraseDups _).filter _

theorem nodup_typeNames_resolveVariants (items : List Item) :
    ((resolveVariants below (variantGroups c parent items)).value.map (·.typeName)).Nodup := by
  have hkeys : (resolveVariants below (variantGroups c parent items)).value.map (·.typeName) =
      (variantGroups c parent items).map Prod.fst := by
    rw [resolveVariants_eq, List.map_map]
    rfl
  rw [hkeys, variantGroups, KeyedList.map_fst_groupPairs]
  exact KeyedList.nodup_eraseDups _

theorem distinctLevel_resolveWithin (c : Context) (levels : Nat) (parent : Option String)
    (nodes : List Node) : DistinctLevel (resolveWithin c levels parent nodes).value := by
  cases levels with
  | zero => exact ⟨List.nodup_nil, List.nodup_nil⟩
  | succ levels =>
    rw [resolveWithin, resolveLevel, value_bind]
    split_ifs
    · exact ⟨nodup_names_resolveFields _, nodup_typeNames_resolveVariants _⟩
    · exact ⟨nodup_names_resolveFields _, List.nodup_nil⟩

/-- All levels of a resolved fragment are distinct. -/
theorem distinctLevel_of_ofDocuments {r : ResolvedFragment} (hr : r.OfDocuments) {position : List Nat}
    {inner : Selection} (h : r.selection.below? position = some inner) : inner.DistinctLevel := by
  obtain ⟨c, known, f, -, -, -, rfl⟩ := hr
  obtain ⟨levels, parent, nodes, rfl⟩ := exists_of_below?_resolveWithin h
  exact distinctLevel_resolveWithin c levels parent nodes

/-! ## Names of slots -/

theorem variantMember_injective : Function.Injective NamingPolicy.variantMember := by
  intro type type' h
  have hlist := congrArg String.toList h
  rw [NamingPolicy.variantMember, NamingPolicy.variantMember, String.toList_append,
    String.toList_append] at hlist
  exact String.toList_injective (List.append_cancel_left hlist)

theorem typenameField_ne_variantMember (type : String) :
    typenameField ≠ NamingPolicy.variantMember type := by
  intro h
  have hlist := congrArg String.toList h
  rw [NamingPolicy.variantMember, String.toList_append] at hlist
  cases hlist

/-- The slots of a level have distinct names unless a field is named like the member of a variant. -/
theorem nodup_slotNames_iff {sel : Selection} (h : sel.DistinctLevel) :
    (sel.slots.map Slot.name).Nodup ↔ ∀ f ∈ sel.fields, ∀ v ∈ sel.variants,
      f.info.name ≠ NamingPolicy.variantMember v.typeName := by
  have hnames : sel.slots.map Slot.name = (if sel.isDiscriminated then [typenameField] else []) ++
      (sel.fields.filter (!sel.absorbs ·)).map (·.info.name) ++
      sel.variants.map (NamingPolicy.variantMember ·.typeName) := by
    rw [slots, List.map_append, List.map_append, List.map_map, List.map_map,
      apply_ite (List.map Slot.name)]
    rfl
  have hfields : ((sel.fields.filter (!sel.absorbs ·)).map (·.info.name)).Nodup :=
    h.fields.sublist (List.filter_sublist.map _)
  have hvariants : (sel.variants.map (NamingPolicy.variantMember ·.typeName)).Nodup := by
    have hmap := List.Nodup.map variantMember_injective h.variants
    rwa [List.map_map] at hmap
  -- the discriminant is named like no other slot: a field of that name is absorbed
  have hfirst : ((if sel.isDiscriminated then [typenameField] else []) ++
      (sel.fields.filter (!sel.absorbs ·)).map (·.info.name)).Nodup := by
    split_ifs with hdiscriminated
    · refine List.nodup_cons.2 ⟨fun hmem => ?_, hfields⟩
      obtain ⟨f, hf, hname⟩ := List.mem_map.1 hmem
      have hkept := (List.mem_filter.1 hf).2
      simp [absorbs, hdiscriminated, hname] at hkept
    · exact hfields
  rw [hnames, List.nodup_append]
  constructor
  · rintro ⟨-, -, hne⟩ f hf v hv heq
    have hkept : sel.absorbs f = false := by
      rw [absorbs, heq, decide_eq_false (typenameField_ne_variantMember v.typeName).symm,
        Bool.and_false]
    refine hne f.info.name ?_ _ (List.mem_map_of_mem hv) heq
    exact List.mem_append_right _ (List.mem_map_of_mem (List.mem_filter.2 ⟨hf, by rw [hkept]; rfl⟩))
  · intro hne
    refine ⟨hfirst, hvariants, fun name hname name' hname' heq => ?_⟩
    obtain ⟨v, hv, rfl⟩ := List.mem_map.1 hname'
    rcases List.mem_append.1 hname with hname | hname
    · split_ifs at hname
      · exact typenameField_ne_variantMember v.typeName (List.mem_singleton.1 hname ▸ heq)
      · cases hname
    · obtain ⟨f, hf, rfl⟩ := List.mem_map.1 hname
      exact hne f (List.mem_filter.1 hf).1 v hv heq

end FragmentShapes.Selection
