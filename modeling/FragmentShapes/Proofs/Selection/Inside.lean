import FragmentShapes.Proofs.Assembly.Objects
import FragmentShapes.Proofs.Selection.Collection

/-!
# Levels inside a level

Every selection inside a resolved one, at whatever depth, has been resolved as a level of its own, from
nodes of its own: the selection under a field from what stands under all uses of the field, a variant
from what stands under the conditions that add to its type. `Selection.levelsFrom` lists the levels with
their nodes, and it is these that they have been resolved from (`Selection.isResolved_of_mem_levelsFrom`).
So what holds of levels holds at all depths.
-/

namespace FragmentShapes

namespace Selection

/-! ## Selections inside a selection -/

/-- A selection and all those inside it. -/
def allLevels (sel : Selection) : List Selection := sel :: sel.objects.map (·.2.2)

theorem allLevels_eq (sel : Selection) :
    sel.allLevels = sel :: (sel.fields.flatMap (fun f => f.selection.elim [] allLevels) ++
      sel.variants.flatMap (·.selection.allLevels)) := by
  have hfields (fields : List SelectedField) :
      (fields.filterMap fun f => f.selection.map fun inner =>
        (f.info.name, inner.typeName, inner)).flatMap (·.2.2.allLevels) =
          fields.flatMap fun f => f.selection.elim [] allLevels := by
    induction fields with
    | nil => rfl
    | cons f fields ih => cases hselection : f.selection <;> simp [hselection, ih]
  rw [allLevels, objects_eq, List.map_flatMap, levelObjects, List.flatMap_append, List.flatMap_map,
    ← hfields]
  rfl

theorem mem_allLevels_of_below? {sel inner : Selection} {position : List Nat}
    (h : sel.below? position = some inner) : inner ∈ sel.allLevels := by
  induction position generalizing sel with
  | nil =>
    rw [below?_nil] at h
    cases h
    exact List.mem_cons_self
  | cons number position ih =>
    obtain ⟨slot, sub, hslot, hsub, hbelow⟩ := below?_cons_eq_some.1 h
    rw [allLevels_eq]
    refine List.mem_cons_of_mem _ (List.mem_append.2 ?_)
    obtain ⟨-, rfl⟩ | ⟨f, hf, -, rfl⟩ | ⟨v, hv, rfl⟩ :=
      Selection.mem_slots.1 (List.mem_of_getElem? hslot)
    · cases hsub
    · refine .inl (List.mem_flatMap.2 ⟨f, hf, ?_⟩)
      rw [show f.selection = some sub from hsub]
      exact ih hbelow
    · cases hsub
      exact .inr (List.mem_flatMap.2 ⟨v, hv, ih hbelow⟩)

/-! ## Nodes under a level -/

/-- The uses of fields on a level. Where its conditions stay open, what stands under them belongs to the
variants. -/
def levelUses (c : Context) (parent : Option String) (nodes : List Node) : List FieldUse :=
  let items := (expand c parent nodes).value
  if items.any Item.isConditional && c.isPolymorphic parent then fieldUses items
  else (settle c parent nodes).value

/-- The nodes under a field of a level: those under all uses of its name. -/
def nodesAtField (c : Context) (parent : Option String) (nodes : List Node) (name : String) :
    List Node :=
  ((levelUses c parent nodes).filter (·.1.name = name)).flatMap (·.2)

/-- The nodes of the variant of a type: those under the conditions of the level that add to the type. -/
def nodesAtVariant (c : Context) (parent : Option String) (nodes : List Node) (type : String) :
    List Node :=
  (((variantGroups c parent (expand c parent nodes).value).get? type).getD []).flatten

/-! ## Levels with their nodes -/

/-- A selection with nodes that it can be resolved from. -/
structure Level where
  selection : Selection
  nodes : List Node

/-- The selection of the level is what its nodes resolve to. -/
def Level.IsResolved (c : Context) (level : Level) : Prop :=
  ∃ levels, level.selection = (resolveWithin c levels level.selection.typeName level.nodes).value

end Selection

mutual

/-- The levels of a selection that has been resolved from the nodes, each with nodes of its own. -/
def Selection.levelsFrom (c : Selection.Context) (nodes : List Node) :
    Selection → List Selection.Level
  | ⟨parent, fields, variants⟩ =>
    ⟨⟨parent, fields, variants⟩, nodes⟩ ::
      (SelectedField.levelsFrom c (Selection.nodesAtField c parent nodes) fields ++
        Variant.levelsFrom c (Selection.nodesAtVariant c parent nodes) variants)

/-- The levels under fields, whose nodes are given by name. -/
def SelectedField.levelsFrom (c : Selection.Context) (nodesAt : String → List Node) :
    List SelectedField → List Selection.Level
  | [] => []
  | ⟨_, none⟩ :: fields => SelectedField.levelsFrom c nodesAt fields
  | ⟨info, some inner⟩ :: fields =>
    inner.levelsFrom c (nodesAt info.name) ++ SelectedField.levelsFrom c nodesAt fields

/-- The levels of variants, whose nodes are given by type. -/
def Variant.levelsFrom (c : Selection.Context) (nodesAt : String → List Node) :
    List Variant → List Selection.Level
  | [] => []
  | ⟨typeName, inner⟩ :: variants =>
    inner.levelsFrom c (nodesAt typeName) ++ Variant.levelsFrom c nodesAt variants

end

mutual

/-- Every selection inside is a level. -/
theorem Selection.map_selection_levelsFrom (c : Selection.Context) (nodes : List Node) :
    ∀ sel : Selection, (sel.levelsFrom c nodes).map (·.selection) = sel.allLevels
  | ⟨parent, fields, variants⟩ => by
    rw [Selection.levelsFrom, List.map_cons, List.map_append, SelectedField.map_selection_levelsFrom,
      Variant.map_selection_levelsFrom, Selection.allLevels_eq]

theorem SelectedField.map_selection_levelsFrom (c : Selection.Context) (nodesAt : String → List Node) :
    ∀ fields : List SelectedField, (SelectedField.levelsFrom c nodesAt fields).map (·.selection) =
      fields.flatMap fun f => f.selection.elim [] Selection.allLevels
  | [] => rfl
  | ⟨_, none⟩ :: fields => by
    rw [SelectedField.levelsFrom, SelectedField.map_selection_levelsFrom c nodesAt fields]
    rfl
  | ⟨info, some inner⟩ :: fields => by
    rw [SelectedField.levelsFrom, List.map_append, inner.map_selection_levelsFrom c,
      SelectedField.map_selection_levelsFrom c nodesAt fields]
    rfl

theorem Variant.map_selection_levelsFrom (c : Selection.Context) (nodesAt : String → List Node) :
    ∀ variants : List Variant, (Variant.levelsFrom c nodesAt variants).map (·.selection) =
      variants.flatMap (·.selection.allLevels)
  | [] => rfl
  | ⟨typeName, inner⟩ :: variants => by
    rw [Variant.levelsFrom, List.map_append, inner.map_selection_levelsFrom c,
      Variant.map_selection_levelsFrom c nodesAt variants]
    rfl

end

namespace Selection

variable {c : Context} {below : Below} {parent : Option String} {nodes : List Node}

theorem mem_levelsFrom_fields {nodesAt : String → List Node} {fields : List SelectedField}
    {level : Level} : level ∈ SelectedField.levelsFrom c nodesAt fields ↔
      ∃ f ∈ fields, ∃ inner, f.selection = some inner ∧
        level ∈ inner.levelsFrom c (nodesAt f.info.name) := by
  induction fields with
  | nil => simp [SelectedField.levelsFrom]
  | cons f fields ih =>
    obtain ⟨info, _ | inner⟩ := f <;> simp [SelectedField.levelsFrom, ih]

theorem mem_levelsFrom_variants {nodesAt : String → List Node} {variants : List Variant}
    {level : Level} : level ∈ Variant.levelsFrom c nodesAt variants ↔
      ∃ v ∈ variants, level ∈ v.selection.levelsFrom c (nodesAt v.typeName) := by
  induction variants with
  | nil => simp [Variant.levelsFrom]
  | cons v variants ih =>
    obtain ⟨typeName, inner⟩ := v
    simp [Variant.levelsFrom, ih]

/-- A level is the selection itself, or inside the selection under a field or a variant. -/
theorem mem_levelsFrom {sel : Selection} {level : Level} :
    level ∈ sel.levelsFrom c nodes ↔ level = ⟨sel, nodes⟩ ∨
      (∃ f ∈ sel.fields, ∃ inner, f.selection = some inner ∧
        level ∈ inner.levelsFrom c (nodesAtField c sel.typeName nodes f.info.name)) ∨
      ∃ v ∈ sel.variants, level ∈
        v.selection.levelsFrom c (nodesAtVariant c sel.typeName nodes v.typeName) := by
  obtain ⟨parent, fields, variants⟩ := sel
  rw [levelsFrom, List.mem_cons, List.mem_append, mem_levelsFrom_fields, mem_levelsFrom_variants]

/-! ## Groups -/

/-- A concrete type has variants by the conditions that it is a variant type of. -/
theorem exists_condition_of_mem_variantGroups {items : List Item} {type : String}
    {rows : List (List Node)} (h : (type, rows) ∈ variantGroups c parent items) :
    ∃ on children, Item.condition on children ∈ items ∧ type ∈ c.variantTypes parent on := by
  obtain ⟨⟨type', children⟩, hmem, rfl⟩ := List.mem_map.1 (KeyedList.mem_groupPairs.1 h).1
  obtain ⟨item, hitem, hmem⟩ := List.mem_flatMap.1 hmem
  cases item with
  | field => cases hmem
  | condition on children' =>
    obtain ⟨type'', htype, heq⟩ := List.mem_map.1 hmem
    cases heq
    exact ⟨on, _, hitem, htype⟩

theorem getD_variantGroups {items : List Item} {type : String} {rows : List (List Node)}
    (h : (type, rows) ∈ variantGroups c parent items) :
    ((variantGroups c parent items).get? type).getD [] = rows :=
  (KeyedList.getD_groupPairs _ _).trans (KeyedList.mem_groupPairs.1 h).2.symm

/-! ## Resolution of a level -/

theorem exists_of_mem_resolveField {name : String} {uses : List FieldUse} {f : SelectedField}
    (hf : (resolveField c below parent name uses).value = some f) :
    f.info.name = name ∧ ∀ inner, f.selection = some inner →
      ∃ parent', inner = (below parent' (uses.flatMap (·.2))).value := by
  have hchildren : ∀ (parent' : Option String) (inner : Selection),
      (resolveChildren below parent' (uses.flatMap (·.2))).value = some inner →
        ∃ parent', inner = (below parent' (uses.flatMap (·.2))).value := by
    intro parent' inner h
    unfold resolveChildren at h
    split at h
    · cases h
    · cases h
      exact ⟨parent', rfl⟩
  -- Whichever type the field gets, its selection is resolved from all its uses.
  rw [resolveField] at hf
  dsimp only at hf
  split at hf
  · cases hf
    exact ⟨rfl, hchildren _⟩
  · rw [value_bind] at hf
    split at hf
    · cases hf
      exact ⟨rfl, hchildren _⟩
    · split at hf
      · cases hf
      · cases hf
        exact ⟨rfl, hchildren _⟩

theorem exists_of_mem_resolveFields {groups : KeyedList (List FieldUse)} {f : SelectedField}
    {inner : Selection} (hf : f ∈ (resolveFields c below parent groups).value)
    (hinner : f.selection = some inner) : ∃ uses, (f.info.name, uses) ∈ groups ∧
      ∃ parent', inner = (below parent' (uses.flatMap (·.2))).value := by
  induction groups with
  | nil => cases hf
  | cons group groups ih =>
    rcases List.mem_append.1 hf with hf | hf
    · obtain ⟨hname, hresolved⟩ := exists_of_mem_resolveField (Option.mem_toList.1 hf)
      exact ⟨group.2, hname ▸ List.mem_cons_self, hresolved inner hinner⟩
    · obtain ⟨uses, huses, h⟩ := ih hf
      exact ⟨uses, List.mem_cons_of_mem _ huses, h⟩

theorem exists_of_mem_resolveVariants {groups : KeyedList (List (List Node))} {v : Variant}
    (hv : v ∈ (resolveVariants below groups).value) :
    ∃ rows, (v.typeName, rows) ∈ groups ∧
      v.selection = (below (some v.typeName) rows.flatten).value := by
  rw [resolveVariants_eq] at hv
  obtain ⟨group, hgroup, rfl⟩ := List.mem_map.1 hv
  exact ⟨group.2, hgroup, rfl⟩

theorem exists_of_mem_fields_resolveLevel {f : SelectedField} {inner : Selection}
    (hf : f ∈ (resolveLevel c below parent nodes).value.fields) (hinner : f.selection = some inner) :
    ∃ parent', inner = (below parent' (nodesAtField c parent nodes f.info.name)).value := by
  have hlevel : f ∈ (resolveFields c below parent (fieldGroups (levelUses c parent nodes))).value := by
    rw [resolveLevel, value_bind] at hf
    rw [levelUses]
    split_ifs at hf ⊢ <;> exact hf
  obtain ⟨uses, huses, parent', rfl⟩ := exists_of_mem_resolveFields hlevel hinner
  rw [(mem_fieldGroups.1 huses).2]
  exact ⟨parent', rfl⟩

theorem exists_of_mem_variants_resolveLevel {v : Variant}
    (hv : v ∈ (resolveLevel c below parent nodes).value.variants) :
    (∃ on children, Item.condition on children ∈ (expand c parent nodes).value ∧
      v.typeName ∈ c.variantTypes parent on) ∧
      v.selection = (below (some v.typeName) (nodesAtVariant c parent nodes v.typeName)).value := by
  rw [resolveLevel, value_bind] at hv
  split_ifs at hv
  · obtain ⟨rows, hrows, hselection⟩ := exists_of_mem_resolveVariants hv
    refine ⟨exists_condition_of_mem_variantGroups hrows, ?_⟩
    rw [hselection, nodesAtVariant, getD_variantGroups hrows]
  · cases hv

/-- A level is for the type that it has been resolved on. -/
theorem typeName_resolveWithin (c : Context) (levels : Nat) (parent : Option String)
    (nodes : List Node) : (resolveWithin c levels parent nodes).value.typeName = parent := by
  cases levels with
  | zero => rfl
  | succ levels =>
    rw [resolveWithin, resolveLevel, value_bind]
    split <;> rfl

theorem isResolved_resolveWithin (c : Context) (levels : Nat) (parent : Option String)
    (nodes : List Node) :
    Level.IsResolved c ⟨(resolveWithin c levels parent nodes).value, nodes⟩ :=
  ⟨levels, by rw [typeName_resolveWithin]⟩

/-- All levels of a resolved selection have been resolved from their nodes. -/
theorem isResolved_of_mem_levelsFrom {levels : Nat} {level : Level}
    (h : level ∈ (resolveWithin c levels parent nodes).value.levelsFrom c nodes) :
    level.IsResolved c := by
  induction levels generalizing parent nodes with
  | zero =>
    rcases mem_levelsFrom.1 h with rfl | ⟨f, hf, -⟩ | ⟨v, hv, -⟩
    · exact isResolved_resolveWithin c 0 parent nodes
    · cases hf
    · cases hv
  | succ levels ih =>
    rcases mem_levelsFrom.1 h with rfl | ⟨f, hf, inner, hinner, h⟩ | ⟨v, hv, h⟩
    · exact isResolved_resolveWithin c (levels + 1) parent nodes
    · rw [typeName_resolveWithin] at h
      obtain ⟨parent', rfl⟩ := exists_of_mem_fields_resolveLevel hf hinner
      exact ih h
    · rw [typeName_resolveWithin] at h
      rw [(exists_of_mem_variants_resolveLevel hv).2] at h
      exact ih h

/-- What is inside a resolved selection has been resolved as a level of its own. -/
theorem exists_of_below?_resolveWithin {levels : Nat} {position : List Nat} {inner : Selection}
    (h : (resolveWithin c levels parent nodes).value.below? position = some inner) :
    ∃ levels' parent' nodes', inner = (resolveWithin c levels' parent' nodes').value := by
  have hmem := mem_allLevels_of_below? h
  rw [← map_selection_levelsFrom c nodes] at hmem
  obtain ⟨level, hlevel, rfl⟩ := List.mem_map.1 hmem
  obtain ⟨levels', hresolved⟩ := isResolved_of_mem_levelsFrom hlevel
  exact ⟨levels', _, level.nodes, hresolved⟩

end Selection

end FragmentShapes
