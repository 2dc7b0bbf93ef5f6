import FragmentShapes.Proofs.Schema.Kinds
import FragmentShapes.Proofs.Selection.Names

/-!
# Which fields a concrete type gets

The fields that a selection collects for a concrete type: those outside conditions, and those under
conditions that hold for the type, at any depth (`Entry.collectAll`). Resolution spreads them over the
common fields and the variant of the type, by two ways: where the type around leaves conditions open
they become variants, where it decides them they are merged into the level. Main statement:
`Fragment.mem_namesFor_resolve_iff`.
-/

namespace FragmentShapes

/-! ## What a selection says -/

mutual

/-- The names of the fields that an entry collects for a concrete type. -/
def Entry.collect (s : Schema) (type : String) : Entry → List String
  | .field head _ => [head.name]
  | .spread _ => []
  | .condition on _ selection => if s.admits type on then Entry.collectAll s type selection else []
  | .group selection => Entry.collectAll s type selection

/-- The names of the fields that entries collect for a concrete type. -/
def Entry.collectAll (s : Schema) (type : String) : List Entry → List String
  | [] => []
  | entry :: entries => entry.collect s type ++ Entry.collectAll s type entries

end

mutual

/-- There are no spreads, and conditions are on types of the schema. -/
def Entry.Plain (s : Schema) : Entry → Prop
  | .field .. => True
  | .spread _ => False
  | .condition on _ selection => s.hasType on = true ∧ Entry.AllPlain s selection
  | .group selection => Entry.AllPlain s selection

/-- There are no spreads in the entries, and conditions are on types of the schema. -/
def Entry.AllPlain (s : Schema) : List Entry → Prop
  | [] => True
  | entry :: entries => entry.Plain s ∧ Entry.AllPlain s entries

end

mutual

/-- The fields and conditions that an entry adds to a level on a type: groups and conditions on the
type itself belong to the level. -/
def Entry.level (parent : String) : Entry → List Entry
  | .condition on label selection =>
    if Selection.Context.isVoid (some parent) on label then Entry.levelAll parent selection
    else [.condition on label selection]
  | .group selection => Entry.levelAll parent selection
  | .field head selection => [.field head selection]
  | .spread fragment => [.spread fragment]

/-- The fields and conditions that entries add to a level on a type. -/
def Entry.levelAll (parent : String) : List Entry → List Entry
  | [] => []
  | entry :: entries => entry.level parent ++ Entry.levelAll parent entries

end

/-- The names that entries collect under conditions on other types than that of the level. -/
def Entry.collectConditional (s : Schema) (parent type : String) (entries : List Entry) :
    List String :=
  ((Entry.levelAll parent entries).filter Entry.isConditional).flatMap (Entry.collect s type)

/-- The names of the fields of a selection. -/
def Selection.names (sel : Selection) : List String := sel.fields.map (·.info.name)

/-- The names that a selection has for a concrete type: those of its own fields, and those of the
variant of the type if there is one. -/
def Selection.namesFor (sel : Selection) (type : String) : List String :=
  sel.names ++ (sel.variant? type).elim [] (·.selection.names)

namespace Entry

variable {s : Schema} {parent type : String}

theorem allPlain_iff {entries : List Entry} : AllPlain s entries ↔ ∀ entry ∈ entries, entry.Plain s := by
  induction entries with
  | nil => simp [AllPlain]
  | cons entry entries ih => simp [AllPlain, ih]

theorem collectAll_eq_flatMap (entries : List Entry) :
    collectAll s type entries = entries.flatMap (collect s type) := by
  induction entries with
  | nil => rw [collectAll, List.flatMap_nil]
  | cons entry entries ih => rw [collectAll, ih, List.flatMap_cons]

theorem mem_collectAll {entries : List Entry} {name : String} :
    name ∈ collectAll s type entries ↔ ∃ entry ∈ entries, name ∈ entry.collect s type := by
  rw [collectAll_eq_flatMap, List.mem_flatMap]

mutual

theorem collect_level (h : s.admits type parent = true) :
    ∀ entry : Entry, collectAll s type (entry.level parent) = entry.collect s type
  | .field head selection => by simp [level, collectAll]
  | .spread fragment => by simp [level, collectAll]
  | .condition on label selection => by
    rw [level]
    split_ifs with hvoid
    · have hon : on = parent := by
        simp only [Selection.Context.isVoid, Bool.and_eq_true, decide_eq_true_eq,
          Option.some.injEq] at hvoid
        exact hvoid.2.symm
      rw [collect_levelAll h selection, collect, hon, if_pos h]
    · rw [collectAll, collectAll, List.append_nil]
  | .group selection => by
    rw [level, collect, collect_levelAll h selection]

/-- Where the type of the level admits the concrete type, nothing is lost on the way to the level. -/
theorem collect_levelAll (h : s.admits type parent = true) :
    ∀ entries : List Entry,
      collectAll s type (levelAll parent entries) = collectAll s type entries
  | [] => by rw [levelAll]
  | entry :: entries => by
    have hfirst := collect_level h entry
    have hrest := collect_levelAll h entries
    rw [collectAll_eq_flatMap] at hfirst hrest ⊢
    rw [levelAll, List.flatMap_append, hfirst, hrest, collectAll]

end

theorem heightAll_le_iff {entries : List Entry} {bound : Nat} :
    heightAll entries ≤ bound ↔ ∀ entry ∈ entries, entry.height ≤ bound := by
  induction entries with
  | nil => simp [heightAll]
  | cons entry entries ih => rw [heightAll, Nat.max_le, ih, List.forall_mem_cons]

theorem eq_nil_of_heightAll_le_zero {entries : List Entry} (h : heightAll entries ≤ 0) :
    entries = [] := by
  cases entries with
  | nil => rfl
  | cons entry entries =>
    have hpos : 0 < entry.height := by cases entry <;> simp [height]
    have hle := heightAll_le_iff.1 h entry List.mem_cons_self
    omega

mutual

theorem height_le_of_mem_level :
    ∀ entry : Entry, ∀ inner ∈ entry.level parent, inner.height ≤ entry.height
  | .field head selection => by simp [level]
  | .spread fragment => by simp [level]
  | .condition on label selection => by
    rw [level, height]
    split_ifs
    · exact fun inner hinner => Nat.le_succ_of_le (height_le_of_mem_levelAll selection inner hinner)
    · simp [height]
  | .group selection => by
    rw [level, height]
    exact fun inner hinner => Nat.le_succ_of_le (height_le_of_mem_levelAll selection inner hinner)

theorem height_le_of_mem_levelAll :
    ∀ entries : List Entry, ∀ inner ∈ levelAll parent entries, inner.height ≤ heightAll entries
  | [] => by simp [levelAll]
  | entry :: entries => by
    rw [levelAll, heightAll]
    intro inner hinner
    rcases List.mem_append.1 hinner with hinner | hinner
    · exact Nat.le_trans (height_le_of_mem_level entry inner hinner) (Nat.le_max_left _ _)
    · exact Nat.le_trans (height_le_of_mem_levelAll entries inner hinner) (Nat.le_max_right _ _)

end

mutual

theorem plain_of_mem_level : ∀ entry : Entry, entry.Plain s →
    ∀ inner ∈ entry.level parent, inner.Plain s
  | .field head selection, h => by simpa [level] using h
  | .spread fragment, h => h.elim
  | .condition on label selection, h => by
    rw [level]
    split_ifs
    · exact plain_of_mem_levelAll selection h.2
    · simpa using h
  | .group selection, h => by
    rw [level]
    exact plain_of_mem_levelAll selection h

theorem plain_of_mem_levelAll : ∀ entries : List Entry, AllPlain s entries →
    ∀ inner ∈ levelAll parent entries, inner.Plain s
  | [], _ => by simp [levelAll]
  | entry :: entries, h => by
    rw [levelAll]
    intro inner hinner
    rcases List.mem_append.1 hinner with hinner | hinner
    · exact plain_of_mem_level entry h.1 inner hinner
    · exact plain_of_mem_levelAll entries h.2 inner hinner

end

end Entry

/-! ## What a level is made of -/

namespace Selection

variable {c : Context} {s : Schema} {openSpread : String → Node} {parent type : String}

/-- The item that an entry of a level becomes. -/
def item? (openSpread : String → Node) : Entry → Option Item
  | .field head selection => some (.field head (Entry.unfoldAll openSpread selection))
  | .condition on _ selection => some (.condition on (Entry.unfoldAll openSpread selection))
  | _ => none

mutual

theorem expandNode_unfold : ∀ entry : Entry, entry.Plain s →
    (expandNode c (some parent) (entry.unfold openSpread)).value =
      (entry.level parent).filterMap (item? openSpread)
  | .field head selection, _ => by
    rw [Entry.unfold, expandNode, Entry.level, value_pure]
    rfl
  | .spread fragment, h => h.elim
  | .condition on label selection, h => by
    rw [Entry.unfold, expandNode, Entry.level]
    split_ifs
    · exact expand_unfoldAll selection h.2
    · rfl
  | .group selection, h => by
    rw [Entry.unfold, expandNode, Entry.level]
    exact expand_unfoldAll selection h

/-- The items of a level are its entries. -/
theorem expand_unfoldAll : ∀ entries : List Entry, Entry.AllPlain s entries →
    (expand c (some parent) (Entry.unfoldAll openSpread entries)).value =
      (Entry.levelAll parent entries).filterMap (item? openSpread)
  | [], _ => rfl
  | entry :: entries, h => by
    rw [Entry.unfoldAll, expand, Entry.levelAll, List.filterMap_append, ← expandNode_unfold entry h.1,
      ← expand_unfoldAll entries h.2]
    rfl

end

theorem applies_eq_admits (hc : c.schema = some s) {on : String} (hon : s.hasType on = true) :
    c.applies (some type) on = s.admits type on := by
  simp only [Context.applies, hc, hon, Bool.not_true, Bool.or_false, Schema.admits]
  rw [Bool.and_comm (s.implements type on)]

mutual

theorem settleNode_unfold (hc : c.schema = some s) : ∀ entry : Entry, entry.Plain s →
    (settleNode c (some type) (entry.unfold openSpread)).value.map (·.1.name) =
      entry.collect s type
  | .field head selection, _ => by
    rw [Entry.unfold, settleNode, Entry.collect, value_pure]
    rfl
  | .spread fragment, h => h.elim
  | .condition on label selection, h => by
    rw [Entry.unfold, settleNode, Entry.collect, applies_eq_admits hc h.1]
    by_cases hvoid : Context.isVoid (some type) on label = true
    · have hon : on = type := by
        simp only [Context.isVoid, Bool.and_eq_true, decide_eq_true_eq, Option.some.injEq] at hvoid
        exact hvoid.2.symm
      rw [if_pos hvoid, hon, if_pos (s.admits_self type)]
      exact settle_unfoldAll hc selection h.2
    · rw [if_neg hvoid]
      split_ifs
      · exact settle_unfoldAll hc selection h.2
      · rfl
  | .group selection, h => by
    rw [Entry.unfold, settleNode, Entry.collect]
    exact settle_unfoldAll hc selection h

/-- Where conditions are decided, a level has the fields that are collected for its type. -/
theorem settle_unfoldAll (hc : c.schema = some s) : ∀ entries : List Entry, Entry.AllPlain s entries →
    (settle c (some type) (Entry.unfoldAll openSpread entries)).value.map (·.1.name) =
      Entry.collectAll s type entries
  | [], _ => rfl
  | entry :: entries, h => by
    rw [Entry.unfoldAll, settle, Entry.collectAll, ← settleNode_unfold hc entry h.1,
      ← settle_unfoldAll hc entries h.2, ← List.map_append]
    rfl

end

end Selection

/-! ## Fields of a level -/

namespace Selection

variable {c : Context} {below : Below} {s : Schema} {parent : Option String} {type : String}

/-- A field of the name is not left out of a level on the type. -/
def isKept (c : Context) (parent : Option String) (name : String) : Bool :=
  name = typenameField || (lookUp c parent name).value.isSome || !isOmitted c parent

theorem map_name_resolveField (name : String) (uses : List FieldUse) :
    (resolveField c below parent name uses).value.map (·.info.name) =
      if isKept c parent name then some name else none := by
  rw [resolveField]
  dsimp only
  by_cases hname : name = typenameField
  · have hkept : isKept c parent name = true := by simp [isKept, hname]
    rw [if_pos hname, hkept]
    rfl
  · rw [if_neg hname, value_bind]
    cases hfound : (lookUp c parent name).value with
    | some definition =>
      have hkept : isKept c parent name = true := by simp [isKept, hfound]
      rw [hkept]
      rfl
    | none =>
      have hkept : isKept c parent name = !isOmitted c parent := by simp [isKept, hname, hfound]
      rw [hkept]
      cases isOmitted c parent <;> rfl

/-- The fields of a level are those that are not left out, in order. -/
theorem map_name_resolveFields (groups : KeyedList (List FieldUse)) :
    (resolveFields c below parent groups).value.map (·.info.name) =
      (groups.map Prod.fst).filter (isKept c parent) := by
  induction groups with
  | nil => rfl
  | cons group groups ih =>
    obtain ⟨name, uses⟩ := group
    have hfirst : (resolveField c below parent name uses).value.toList.map (·.info.name) =
        if isKept c parent name then [name] else [] := by
      rw [← Option.toList_map, map_name_resolveField]
      split_ifs <;> rfl
    rw [List.map_cons, List.filter_cons, ← ih, resolveFields, value_bind, value_bind, value_pure,
      List.map_append, hfirst]
    split_ifs <;> rfl

theorem mem_names_resolveFields {uses : List FieldUse} {name : String} :
    name ∈ (resolveFields c below parent (fieldGroups uses)).value.map (·.info.name) ↔
      name ∈ uses.map (·.1.name) ∧ isKept c parent name = true := by
  rw [map_name_resolveFields, fieldGroups, KeyedList.map_fst_groupPairs, List.mem_filter,
    List.mem_eraseDups, List.map_map]
  rfl

theorem isKept_eq_false_iff (hc : c.schema = some s) (htype : s.hasType type = true) {name : String} :
    isKept c (some type) name = false ↔
      s.isUnion type = true ∧ name ≠ typenameField ∧ s.field? type name = none := by
  have hlookUp : (lookUp c (some type) name).value = s.field? type name := by
    simp only [lookUp, hc, htype, if_true]
    split
    · next definition hdefinition => rw [hdefinition, value_pure]
    · next hnone =>
      rw [hnone]
      split <;> rfl
  have homitted : isOmitted c (some type) = s.isUnion type := by
    simp only [isOmitted, hc]
  rw [isKept, hlookUp, homitted]
  simp only [Bool.or_eq_false_iff, decide_eq_false_iff_not, Option.isSome_eq_false_iff,
    Option.isNone_iff_eq_none, Bool.not_eq_false']
  exact and_comm

theorem isKept_of_isObject (hc : c.schema = some s) (hobject : s.isObject type = true) (name : String) :
    isKept c (some type) name = true := by
  rw [← Bool.not_eq_false, isKept_eq_false_iff hc (Schema.hasType_of_isObject hobject),
    Schema.isUnion_of_isObject hobject]
  simp

/-! ## Levels -/

variable {openSpread : String → Node} {entries : List Entry}

theorem isPolymorphic_eq (hc : c.schema = some s) (htype : s.hasType type = true) :
    c.isPolymorphic (some type) = s.isAbstract type := by
  simp [Context.isPolymorphic, hc, htype]

theorem any_isConditional_expand (hplain : Entry.AllPlain s entries) {parent : String} :
    (expand c (some parent) (Entry.unfoldAll openSpread entries)).value.any Item.isConditional =
      (Entry.levelAll parent entries).any Entry.isConditional := by
  rw [expand_unfoldAll entries hplain]
  induction Entry.levelAll parent entries with
  | nil => rfl
  | cons entry rest ih =>
    cases entry with
    | field | spread | group => exact ih
    | condition => rfl

/-- A level whose conditions are decided. -/
theorem resolveLevel_eq_of_decided {nodes : List Node}
    (h : ((expand c parent nodes).value.any Item.isConditional && c.isPolymorphic parent) = false) :
    resolveLevel c below parent nodes =
      ⟨⟨parent, (resolveFields c below parent (fieldGroups (settle c parent nodes).value)).value, []⟩,
        (expand c parent nodes).findings ++ ((settle c parent nodes).findings ++
          (resolveFields c below parent (fieldGroups (settle c parent nodes).value)).findings)⟩ := by
  rw [resolveLevel]
  dsimp only [bind]
  rw [if_neg (by rw [h]; exact Bool.false_ne_true)]
  change (⟨_, _ ++ (_ ++ (_ ++ []))⟩ : Noted _) = _
  rw [List.append_nil]
  rfl

theorem resolveLevel_of_decided {nodes : List Node}
    (h : ((expand c parent nodes).value.any Item.isConditional && c.isPolymorphic parent) = false) :
    (resolveLevel c below parent nodes).value =
      ⟨parent, (resolveFields c below parent (fieldGroups (settle c parent nodes).value)).value, []⟩ := by
  rw [resolveLevel_eq_of_decided h]

/-- A level whose conditions stay open. -/
theorem resolveLevel_eq_of_open {nodes : List Node}
    (h : ((expand c parent nodes).value.any Item.isConditional && c.isPolymorphic parent) = true) :
    resolveLevel c below parent nodes =
      ⟨⟨parent,
          (resolveFields c below parent (fieldGroups (fieldUses (expand c parent nodes).value))).value,
          (resolveVariants below (variantGroups c parent (expand c parent nodes).value)).value⟩,
        (expand c parent nodes).findings ++
          ((resolveFields c below parent (fieldGroups (fieldUses (expand c parent nodes).value))).findings ++
            (resolveVariants below (variantGroups c parent (expand c parent nodes).value)).findings)⟩ := by
  rw [resolveLevel]
  dsimp only [bind]
  rw [if_pos h]
  change (⟨_, _ ++ (_ ++ (_ ++ []))⟩ : Noted _) = _
  rw [List.append_nil]
  rfl

theorem resolveLevel_of_open {nodes : List Node}
    (h : ((expand c parent nodes).value.any Item.isConditional && c.isPolymorphic parent) = true) :
    (resolveLevel c below parent nodes).value =
      ⟨parent,
        (resolveFields c below parent (fieldGroups (fieldUses (expand c parent nodes).value))).value,
        (resolveVariants below (variantGroups c parent (expand c parent nodes).value)).value⟩ := by
  rw [resolveLevel_eq_of_open h]

/-- On an object a selection comes to what is collected for it, if there are levels enough. -/
theorem mem_names_resolveWithin_of_isObject (hc : c.schema = some s) (hobject : s.isObject type = true)
    (hplain : Entry.AllPlain s entries) {levels : Nat} (hlevels : Entry.heightAll entries ≤ levels)
    {name : String} :
    name ∈ (resolveWithin c levels (some type) (Entry.unfoldAll openSpread entries)).value.names ↔
      name ∈ Entry.collectAll s type entries := by
  cases levels with
  | zero =>
    rw [Entry.eq_nil_of_heightAll_le_zero hlevels]
    exact Iff.rfl
  | succ levels =>
    have hdecided : c.isPolymorphic (some type) = false := by
      rw [isPolymorphic_eq hc (Schema.hasType_of_isObject hobject), Schema.isAbstract_of_isObject hobject]
    rw [resolveWithin, resolveLevel_of_decided (by rw [hdecided, Bool.and_false]), names,
      mem_names_resolveFields, settle_unfoldAll hc entries hplain, isKept_of_isObject hc hobject]
    exact and_iff_left rfl

/-! ## Variants -/

theorem resolveVariants_eq (groups : KeyedList (List (List Node))) :
    (resolveVariants below groups).value =
      groups.map fun group => ⟨group.1, (below (some group.1) group.2.flatten).value⟩ := by
  induction groups with
  | nil => rfl
  | cons group groups ih =>
    rw [List.map_cons, ← ih]
    rfl

/-- The variant of a type has what stands under the conditions that belong to the type. -/
theorem variant?_resolveVariants (pairs : List (String × List Node)) (fields : List SelectedField)
    (type : String) :
    variant? ⟨parent, fields, (resolveVariants below (KeyedList.groupPairs pairs)).value⟩ type =
      if type ∈ pairs.map Prod.fst then
        some ⟨type, (below (some type) (KeyedList.valuesOf pairs type).flatten).value⟩
      else none := by
  have hkeys : ∀ keys : List String, ((KeyedList.tabulate keys (KeyedList.valuesOf pairs)).map
      fun group => (⟨group.1, (below (some group.1) group.2.flatten).value⟩ : Variant)).find?
        (·.typeName = type) =
      if type ∈ keys then
        some ⟨type, (below (some type) (KeyedList.valuesOf pairs type).flatten).value⟩
      else none := by
    intro keys
    induction keys with
    | nil => rfl
    | cons key keys ih =>
      rw [KeyedList.tabulate, List.map_cons, List.map_cons, ← KeyedList.tabulate, List.find?_cons, ih]
      by_cases h : key = type
      · simp [h]
      · simp [h, Ne.symm h]
  rw [variant?, resolveVariants_eq, KeyedList.groupPairs_eq, hkeys]
  simp only [List.mem_eraseDups]

/-- The entries under the conditions of a level, by the concrete types that they add variants for. -/
def conditionPairs (c : Context) (parent : String) (entries : List Entry) :
    List (String × List Entry) :=
  (Entry.levelAll parent entries).flatMap fun
    | .condition on _ selection => (c.variantTypes (some parent) on).map (·, selection)
    | _ => []

theorem unfoldAll_eq_map (entries : List Entry) :
    Entry.unfoldAll openSpread entries = entries.map (Entry.unfold openSpread) := by
  induction entries with
  | nil => rw [Entry.unfoldAll, List.map_nil]
  | cons entry entries ih => rw [Entry.unfoldAll, ih, List.map_cons]

theorem variantGroups_expand (hplain : Entry.AllPlain s entries) (parent : String) :
    variantGroups c (some parent) (expand c (some parent) (Entry.unfoldAll openSpread entries)).value =
      KeyedList.groupPairs ((conditionPairs c parent entries).map
        (Prod.map id (Entry.unfoldAll openSpread))) := by
  rw [variantGroups, expand_unfoldAll entries hplain, conditionPairs]
  congr 1
  induction Entry.levelAll parent entries with
  | nil => rfl
  | cons entry rest ih =>
    rw [List.flatMap_cons, List.map_append, ← ih]
    cases entry with
    | field | spread | group => rfl
    | condition on label selection =>
      have hmap : (c.variantTypes (some parent) on).map (·, Entry.unfoldAll openSpread selection) =
          ((c.variantTypes (some parent) on).map (·, selection)).map
            (Prod.map id (Entry.unfoldAll openSpread)) := by
        rw [List.map_map]
        rfl
      exact congrArg (· ++ _) hmap

theorem mem_variantTypes_iff (hc : c.schema = some s) {parent : String}
    (hobject : s.isObject type = true) (hpossible : type ∈ s.possibleTypes parent) {on : String} :
    type ∈ c.variantTypes (some parent) on ↔ s.admits type on = true := by
  have hparent := Schema.hasType_of_mem_possibleTypes hpossible
  simp only [Context.variantTypes, hc, hparent, if_true]
  split_ifs with habstract
  · rw [List.mem_filter, Schema.mem_possibleTypes_iff_admits hobject habstract]
    simp [hpossible]
  · rw [Schema.admits_eq_of_not_isAbstract (Bool.eq_false_iff.2 habstract), List.mem_singleton,
      decide_eq_true_eq, eq_comm]

/-- What an object gets under the conditions of a level. -/
theorem mem_collectConditional_iff (hc : c.schema = some s) {parent : String}
    (hobject : s.isObject type = true) (hpossible : type ∈ s.possibleTypes parent) {name : String} :
    name ∈ Entry.collectConditional s parent type entries ↔
      ∃ inner, (type, inner) ∈ conditionPairs c parent entries ∧
        name ∈ Entry.collectAll s type inner := by
  rw [Entry.collectConditional, conditionPairs]
  simp only [List.mem_flatMap, List.mem_filter]
  constructor
  · rintro ⟨entry, ⟨hentry, hconditional⟩, hname⟩
    cases entry with
    | field | spread | group => cases hconditional
    | condition on label selection =>
      rw [Entry.collect] at hname
      split_ifs at hname with hadmits
      · refine ⟨selection, ⟨_, hentry, ?_⟩, hname⟩
        exact List.mem_map.2 ⟨type, (mem_variantTypes_iff hc hobject hpossible).2 hadmits, rfl⟩
      · cases hname
  · rintro ⟨inner, ⟨entry, hentry, hpair⟩, hname⟩
    cases entry with
    | field | spread | group => cases hpair
    | condition on label selection =>
      obtain ⟨other, hother, heq⟩ := List.mem_map.1 hpair
      cases heq
      refine ⟨_, ⟨hentry, rfl⟩, ?_⟩
      rw [Entry.collect, if_pos ((mem_variantTypes_iff hc hobject hpossible).1 hother)]
      exact hname

theorem mem_conditionPairs {parent : String} {inner : List Entry}
    (h : (type, inner) ∈ conditionPairs c parent entries) :
    ∃ on label, .condition on label inner ∈ Entry.levelAll parent entries := by
  obtain ⟨entry, hentry, hpair⟩ := List.mem_flatMap.1 h
  cases entry with
  | field | spread | group => cases hpair
  | condition on label selection =>
    obtain ⟨other, -, heq⟩ := List.mem_map.1 hpair
    cases heq
    exact ⟨on, label, hentry⟩

/-- What stands under the conditions of a level that a type meets. -/
theorem mem_conditional {parent : String} {entry : Entry} :
    entry ∈ (KeyedList.valuesOf (conditionPairs c parent entries) type).flatten ↔
      ∃ inner, (type, inner) ∈ conditionPairs c parent entries ∧ entry ∈ inner := by
  simp only [List.mem_flatten, KeyedList.mem_valuesOf]

theorem allPlain_conditional (hplain : Entry.AllPlain s entries) (parent : String) :
    Entry.AllPlain s (KeyedList.valuesOf (conditionPairs c parent entries) type).flatten := by
  refine Entry.allPlain_iff.2 fun entry hentry => ?_
  obtain ⟨inner, hpair, hmem⟩ := mem_conditional.1 hentry
  obtain ⟨on, label, hlevel⟩ := mem_conditionPairs hpair
  exact Entry.allPlain_iff.1 (Entry.plain_of_mem_levelAll entries hplain _ hlevel).2 entry hmem

theorem heightAll_conditional {levels : Nat} (hlevels : Entry.heightAll entries ≤ levels + 1)
    (parent : String) :
    Entry.heightAll (KeyedList.valuesOf (conditionPairs c parent entries) type).flatten ≤ levels := by
  refine Entry.heightAll_le_iff.2 fun entry hentry => ?_
  obtain ⟨inner, hpair, hmem⟩ := mem_conditional.1 hentry
  obtain ⟨on, label, hlevel⟩ := mem_conditionPairs hpair
  have hheight := Nat.le_trans (Entry.height_le_of_mem_levelAll entries _ hlevel) hlevels
  rw [Entry.height] at hheight
  exact Entry.heightAll_le_iff.1 (Nat.le_of_succ_le_succ hheight) entry hmem

theorem mem_collectAll_conditional {parent name : String} :
    name ∈ Entry.collectAll s type (KeyedList.valuesOf (conditionPairs c parent entries) type).flatten ↔
      ∃ inner, (type, inner) ∈ conditionPairs c parent entries ∧
        name ∈ Entry.collectAll s type inner := by
  simp only [Entry.mem_collectAll, mem_conditional]
  constructor
  · rintro ⟨entry, ⟨inner, hpair, hmem⟩, hname⟩
    exact ⟨inner, hpair, entry, hmem, hname⟩
  · rintro ⟨inner, hpair, entry, hmem, hname⟩
    exact ⟨entry, ⟨inner, hpair, hmem⟩, hname⟩

/-- The variant of an object has the names that are collected under conditions. -/
theorem mem_names_variant?_iff (hc : c.schema = some s) {parent : String}
    (hobject : s.isObject type = true) (hpossible : type ∈ s.possibleTypes parent)
    (hplain : Entry.AllPlain s entries) {levels : Nat} (hlevels : Entry.heightAll entries ≤ levels + 1)
    (fields : List SelectedField) {name : String} :
    (∃ v, variant? ⟨some parent, fields, (resolveVariants (resolveWithin c levels)
        (variantGroups c (some parent)
          (expand c (some parent) (Entry.unfoldAll openSpread entries)).value)).value⟩ type = some v ∧
        name ∈ v.selection.names) ↔ name ∈ Entry.collectConditional s parent type entries := by
  have hvalues : (KeyedList.valuesOf ((conditionPairs c parent entries).map
      (Prod.map id (Entry.unfoldAll openSpread))) type).flatten =
      Entry.unfoldAll openSpread (KeyedList.valuesOf (conditionPairs c parent entries) type).flatten := by
    rw [KeyedList.valuesOf_map, unfoldAll_eq_map, List.map_flatten]
    exact congrArg List.flatten (List.map_congr_left fun inner _ => unfoldAll_eq_map inner)
  -- All conditions that the type meets are resolved as one selection, of which the names are known.
  have hnames : name ∈ (resolveWithin c levels (some type) (Entry.unfoldAll openSpread
      (KeyedList.valuesOf (conditionPairs c parent entries) type).flatten)).value.names ↔
        ∃ inner, (type, inner) ∈ conditionPairs c parent entries ∧
          name ∈ Entry.collectAll s type inner :=
    (mem_names_resolveWithin_of_isObject hc hobject (allPlain_conditional hplain parent)
      (heightAll_conditional hlevels parent)).trans mem_collectAll_conditional
  rw [mem_collectConditional_iff hc hobject hpossible, variantGroups_expand hplain,
    variant?_resolveVariants, hvalues]
  have hkey : type ∈ ((conditionPairs c parent entries).map
      (Prod.map id (Entry.unfoldAll openSpread))).map Prod.fst ↔
        ∃ inner, (type, inner) ∈ conditionPairs c parent entries := by
    simp
  constructor
  · rintro ⟨v, hv, hname⟩
    split_ifs at hv
    cases hv
    exact hnames.1 hname
  · rintro ⟨inner, hpair, hname⟩
    rw [if_pos (hkey.2 ⟨inner, hpair⟩)]
    exact ⟨_, rfl, hnames.2 ⟨inner, hpair, hname⟩⟩

/-! ## The whole of a selection -/

mutual

theorem map_name_fieldUses_level (openSpread : String → Node) (type parent : String) :
    ∀ entry : Entry, entry.Plain s →
      (fieldUses ((entry.level parent).filterMap (item? openSpread))).map (·.1.name) =
        ((entry.level parent).filter (!·.isConditional)).flatMap (Entry.collect s type)
  | .field head selection, _ => by
    simp [Entry.level, item?, fieldUses, Entry.isConditional, Entry.collect]
  | .spread fragment, h => h.elim
  | .condition on label selection, h => by
    rw [Entry.level]
    split_ifs
    · exact map_name_fieldUses_levelAll openSpread type parent selection h.2
    · rfl
  | .group selection, h => by
    rw [Entry.level]
    exact map_name_fieldUses_levelAll openSpread type parent selection h

/-- The common fields of a level are what it collects outside conditions. -/
theorem map_name_fieldUses_levelAll (openSpread : String → Node) (type parent : String) :
    ∀ entries : List Entry, Entry.AllPlain s entries →
      (fieldUses ((Entry.levelAll parent entries).filterMap (item? openSpread))).map (·.1.name) =
        ((Entry.levelAll parent entries).filter (!·.isConditional)).flatMap (Entry.collect s type)
  | [], _ => rfl
  | entry :: entries, h => by
    have hfirst := map_name_fieldUses_level openSpread type parent entry h.1
    have hrest := map_name_fieldUses_levelAll openSpread type parent entries h.2
    rw [fieldUses] at hfirst hrest ⊢
    rw [Entry.levelAll, List.filterMap_append, List.filterMap_append, List.map_append, hfirst, hrest,
      List.filter_append, List.flatMap_append]

end

/-- What is collected on a level comes from outside its conditions or from under them. -/
theorem mem_collectAll_iff {parent : String} (h : s.admits type parent = true) {name : String} :
    name ∈ Entry.collectAll s type entries ↔
      name ∈ ((Entry.levelAll parent entries).filter (!·.isConditional)).flatMap (Entry.collect s type) ∨
        name ∈ Entry.collectConditional s parent type entries := by
  rw [← Entry.collect_levelAll h, Entry.collectAll_eq_flatMap, Entry.collectConditional]
  simp only [List.mem_flatMap, List.mem_filter, ← exists_or, ← or_and_right, ← and_or_left]
  refine exists_congr fun entry => ?_
  cases entry.isConditional <;> simp

/-- A level without open conditions has the same fields for all its concrete types. -/
theorem mem_collectAll_of_decided {parent : String} (hobject : s.isObject type = true)
    (hpossible : type ∈ s.possibleTypes parent) (hplain : Entry.AllPlain s entries)
    (h : ((Entry.levelAll parent entries).any Entry.isConditional && s.isAbstract parent) = false)
    {name : String} :
    (name ∈ Entry.collectAll s parent entries ↔ name ∈ Entry.collectAll s type entries) ∧
      (s.isUnion parent = true → name ∉ Entry.collectConditional s parent type entries) := by
  have hadmits := Schema.admits_of_mem_possibleTypes hobject hpossible
  by_cases habstract : s.isAbstract parent = true
  · -- there are no conditions, and other entries collect the same for every type
    have hnone : (Entry.levelAll parent entries).filter Entry.isConditional = [] := by
      rw [habstract, Bool.and_true, List.any_eq_false] at h
      exact List.filter_eq_nil_iff.2 h
    have hconditional (type : String) : name ∉ Entry.collectConditional s parent type entries := by
      rw [Entry.collectConditional, hnone]
      exact List.not_mem_nil
    refine ⟨?_, fun _ => hconditional type⟩
    rw [mem_collectAll_iff (s.admits_self parent), mem_collectAll_iff hadmits,
      or_iff_left (hconditional parent), or_iff_left (hconditional type),
      ← map_name_fieldUses_levelAll .unknown parent parent entries hplain,
      map_name_fieldUses_levelAll .unknown type parent entries hplain]
  · rw [Bool.not_eq_true] at habstract
    rw [Schema.admits_eq_of_not_isAbstract habstract, decide_eq_true_eq] at hadmits
    subst hadmits
    refine ⟨Iff.rfl, fun hunion => ?_⟩
    rw [Schema.isUnion_of_isObject hobject] at hunion
    cases hunion

theorem mem_namesFor {sel : Selection} {name : String} :
    name ∈ sel.namesFor type ↔
      name ∈ sel.names ∨ ∃ v, sel.variant? type = some v ∧ name ∈ v.selection.names := by
  rw [namesFor, List.mem_append]
  cases sel.variant? type <;> simp

/-- Resolution gives each concrete type what is collected for it. -/
theorem mem_namesFor_resolveWithin_iff (hc : c.schema = some s) {parent : String}
    (hobject : s.isObject type = true) (hpossible : type ∈ s.possibleTypes parent)
    (hplain : Entry.AllPlain s entries) {levels : Nat} (hlevels : Entry.heightAll entries ≤ levels)
    {name : String} :
    name ∈ (resolveWithin c levels (some parent)
        (Entry.unfoldAll openSpread entries)).value.namesFor type ↔
      name ∈ Entry.collectAll s type entries ∧
        ¬ (s.isUnion parent = true ∧ name ≠ typenameField ∧ s.field? parent name = none ∧
          name ∉ Entry.collectConditional s parent type entries) := by
  have htype := Schema.hasType_of_mem_possibleTypes hpossible
  have hadmits := Schema.admits_of_mem_possibleTypes hobject hpossible
  have hkept : isKept c (some parent) name = true ↔
      ¬ (s.isUnion parent = true ∧ name ≠ typenameField ∧ s.field? parent name = none) := by
    rw [← isKept_eq_false_iff hc htype, Bool.not_eq_false]
  rw [mem_namesFor]
  cases levels with
  | zero =>
    rw [Entry.eq_nil_of_heightAll_le_zero hlevels]
    simp [resolveWithin, value_pure, names, variant?, Entry.collectAll]
  | succ levels =>
    by_cases hopen : ((expand c (some parent) (Entry.unfoldAll openSpread entries)).value.any
        Item.isConditional && c.isPolymorphic (some parent)) = true
    · -- the fields outside conditions are common, those under conditions stand in the variant
      rw [resolveWithin, resolveLevel_of_open hopen,
        mem_names_variant?_iff hc hobject hpossible hplain hlevels, names, mem_names_resolveFields,
        expand_unfoldAll entries hplain, map_name_fieldUses_levelAll openSpread type parent entries hplain,
        mem_collectAll_iff hadmits, hkept]
      by_cases hconditional : name ∈ Entry.collectConditional s parent type entries
      · simp [hconditional]
      · simp [hconditional]
    · -- all fields are common; those of a union all stand outside conditions
      rw [Bool.not_eq_true] at hopen
      rw [resolveWithin, resolveLevel_of_decided hopen, names, mem_names_resolveFields,
        settle_unfoldAll hc entries hplain, hkept]
      rw [any_isConditional_expand hplain, isPolymorphic_eq hc htype] at hopen
      obtain ⟨hsame, hconditional⟩ := mem_collectAll_of_decided hobject hpossible hplain hopen
      have hnone (fields : List SelectedField) : ¬ ∃ v,
          variant? ⟨some parent, fields, []⟩ type = some v ∧ name ∈ v.selection.names := by
        rintro ⟨v, hv, -⟩
        cases hv
      rw [or_iff_left (hnone _), hsame]
      refine and_congr_right fun _ => not_congr ⟨?_, ?_⟩
      · rintro ⟨hunion, hname, hfield⟩
        exact ⟨hunion, hname, hfield, hconditional hunion⟩
      · rintro ⟨hunion, hname, hfield, -⟩
        exact ⟨hunion, hname, hfield⟩

end Selection

/-- The concrete types of a fragment's type get the fields that are collected for them, and no others.
Only a union leaves out fields: those that it does not have itself and that a concrete type does not
get under a condition either. -/
theorem Fragment.mem_namesFor_resolve_iff {s : Schema} {c : Selection.Context}
    (hc : c.schema = some s) (known : List Fragment) {f : Fragment}
    (hplain : Entry.AllPlain s f.entries) {type : String} (hobject : s.isObject type = true)
    (hpossible : type ∈ s.possibleTypes f.onType) (name : String) :
    name ∈ (f.resolve c known).selection.namesFor type ↔
      name ∈ Entry.collectAll s type f.entries ∧
        ¬ (s.isUnion f.onType = true ∧ name ≠ Selection.typenameField ∧
          s.field? f.onType name = none ∧
          name ∉ Entry.collectConditional s f.onType type f.entries) :=
  Selection.mem_namesFor_resolveWithin_iff hc hobject hpossible hplain (Nat.le_add_right _ _)

/-- Two kinds of pets. A cat has a tail, a dog may have none. -/
def Schema.pets : Schema where
  types := Schema.initial.types ++ [
    { name := "Named", body := .interface [] [{ name := "name", type := .named "String" true }] },
    { name := "Cat"
      body := .object ["Named"] [
        { name := "name", type := .named "String" true },
        { name := "tail", type := .named "Int" true }] },
    { name := "Dog", body := .object ["Named"] [{ name := "name", type := .named "String" true }] },
    { name := "Pet", body := .union ["Cat", "Dog"] }]

/-- A fragment on a union with a condition on an interface. -/
def Fragment.pet : Fragment where
  name := "Card"
  onType := "Pet"
  entries :=
    [.field { name := "tail" } [],
      .condition "Named" none [.field { name := "name" } []]]

/-- A cat gets its name, which stands under a condition, but not its tail: dogs have none. -/
theorem Fragment.namesFor_resolve_pet :
    (Schema.pets.isObject "Cat" = true ∧ "Cat" ∈ Schema.pets.possibleTypes Fragment.pet.onType ∧
      Entry.AllPlain Schema.pets Fragment.pet.entries) ∧
    "name" ∈ (Fragment.pet.resolve { schema := some Schema.pets } []).selection.namesFor "Cat" ∧
    "tail" ∉ (Fragment.pet.resolve { schema := some Schema.pets } []).selection.namesFor "Cat" := by
  have hobject : Schema.pets.isObject "Cat" = true := by decide
  have hpossible : "Cat" ∈ Schema.pets.possibleTypes Fragment.pet.onType := by decide
  have hplain : Entry.AllPlain Schema.pets Fragment.pet.entries :=
    ⟨trivial, ⟨by decide, trivial, trivial⟩, trivial⟩
  have hnames := mem_namesFor_resolve_iff (c := { schema := some Schema.pets }) rfl [] hplain hobject
    hpossible
  refine ⟨⟨hobject, hpossible, hplain⟩, (hnames "name").2 ⟨by decide, ?_⟩, fun htail => ?_⟩
  · rintro ⟨-, -, -, hconditional⟩
    exact hconditional (by decide)
  · exact ((hnames "tail").1 htail).2 ⟨by decide, by decide, by decide +kernel, by decide⟩

end FragmentShapes
