import FragmentShapes.Proofs.KeyedList
import FragmentShapes.Proofs.Schema.Lookup
import FragmentShapes.Selection.Resolve

/-!
# Names in resolved selections

Opening spreads and resolving levels invents no names: all of them come from documents. The main
statement is `ResolvedFragment.OfDocuments.wellNamed`: what fragments of documents resolve to, with or
without a schema from documents, is well named.
-/

namespace FragmentShapes

/-! ## Opened spreads -/

mutual

/-- Every name in the node is one that documents can write. -/
def Node.WellNamed : Node → Prop
  | .field head children =>
    Text.isAsciiName head.name = true ∧ (∀ t ∈ head.declaredType, t.WellNamed) ∧
      Node.AllWellNamed children
  | .condition on _ children => Text.isAsciiName on = true ∧ Node.AllWellNamed children
  | .group children => Node.AllWellNamed children
  | .opened _ onType body => Text.isAsciiName onType = true ∧ (body ()).WellNamed
  | .cycle _ => True
  | .unknown _ => True

/-- Every name in the nodes is one that documents can write. -/
def Node.AllWellNamed : List Node → Prop
  | [] => True
  | node :: nodes => node.WellNamed ∧ Node.AllWellNamed nodes

end

theorem Node.allWellNamed_iff {nodes : List Node} :
    Node.AllWellNamed nodes ↔ ∀ node ∈ nodes, node.WellNamed := by
  induction nodes with
  | nil => simp [Node.AllWellNamed]
  | cons node nodes ih => simp [Node.AllWellNamed, ih]

mutual

theorem Entry.unfold_wellNamed {openSpread : String → Node}
    (hopen : ∀ name, (openSpread name).WellNamed) :
    ∀ entry : Entry, entry.WellNamed → (entry.unfold openSpread).WellNamed
  | .field _ selection, h => ⟨h.1, h.2.1, Entry.unfoldAll_wellNamed hopen selection h.2.2⟩
  | .spread name, _ => hopen name
  | .condition _ _ selection, h => ⟨h.1, Entry.unfoldAll_wellNamed hopen selection h.2⟩
  | .group selection, h => Entry.unfoldAll_wellNamed hopen selection h

theorem Entry.unfoldAll_wellNamed {openSpread : String → Node}
    (hopen : ∀ name, (openSpread name).WellNamed) :
    ∀ entries : List Entry, Entry.AllWellNamed entries →
      Node.AllWellNamed (Entry.unfoldAll openSpread entries)
  | [], _ => trivial
  | entry :: entries, h =>
    ⟨Entry.unfold_wellNamed hopen entry h.1, Entry.unfoldAll_wellNamed hopen entries h.2⟩

end

namespace Fragment

theorem wellNamed_without {fragments : List Fragment} (h : ∀ f ∈ fragments, f.WellNamed)
    (name : String) : ∀ f ∈ without name fragments, f.WellNamed :=
  fun f hf => h f (List.mem_filter.1 hf).1

theorem openSpread_wellNamed (known unopened : List Fragment) (trail : List String) (name : String)
    (h : ∀ f ∈ unopened, f.WellNamed) : (openSpread known unopened trail name).WellNamed := by
  induction hlen : unopened.length using Nat.strongRecOn generalizing unopened trail name with
  | _ n ih =>
    rw [openSpread]
    split
    · next f hf =>
      obtain ⟨-, hon, hentries⟩ := h f (List.mem_of_find?_eq_some hf)
      refine ⟨hon, Entry.unfoldAll_wellNamed (fun inner => ?_) f.entries
        (Entry.allWellNamed_iff.2 hentries)⟩
      exact ih _ (hlen ▸ length_without_lt hf) _ _ _ (wellNamed_without h name) rfl
    · split_ifs <;> trivial

theorem unfold_wellNamed {known : List Fragment} (hknown : ∀ g ∈ known, g.WellNamed) {f : Fragment}
    (hf : f.WellNamed) : Node.AllWellNamed (f.unfold known) :=
  Entry.unfoldAll_wellNamed
    (fun name => openSpread_wellNamed known _ _ name (wellNamed_without hknown f.name)) f.entries
    (Entry.allWellNamed_iff.2 hf.2.2)

end Fragment

/-! ## Levels -/

namespace Selection

@[simp] theorem value_pure {α : Type} (a : α) : (pure a : Noted α).value = a := rfl

@[simp] theorem value_bind {α β : Type} (x : Noted α) (f : α → Noted β) :
    (x >>= f).value = (f x.value).value := rfl

/-- Every name in the item is one that documents can write. -/
def Item.WellNamed : Item → Prop
  | .field head children => (Node.field head children).WellNamed
  | .condition on children => (Node.condition on none children).WellNamed

/-- Every name in the field is one that documents can write. -/
def FieldUse.WellNamed (use : FieldUse) : Prop := (Node.field use.1 use.2).WellNamed

variable (c : Context) (parent : Option String)

mutual

theorem expandNode_wellNamed : ∀ node : Node, node.WellNamed →
    ∀ item ∈ (expandNode c parent node).value, item.WellNamed
  | .field head children, h => by simpa [expandNode, Item.WellNamed] using h
  | .condition on label children, h => by
    rw [expandNode]
    split_ifs
    · exact expand_wellNamed children h.2
    · simpa [Item.WellNamed, Node.WellNamed] using h
  | .group children, h => by
    rw [expandNode]
    exact expand_wellNamed children h
  | .opened _ onType body, h => by
    rw [expandNode]
    split_ifs
    · simpa [Item.WellNamed, Node.WellNamed, Node.AllWellNamed] using h
    · exact expandNode_wellNamed (body ()) h.2
  | .cycle _, _ => by simp [expandNode]
  | .unknown _, _ => by simp [expandNode]

theorem expand_wellNamed : ∀ nodes : List Node, Node.AllWellNamed nodes →
    ∀ item ∈ (expand c parent nodes).value, item.WellNamed
  | [], _ => by simp [expand]
  | node :: nodes, h => by
    have hfirst := expandNode_wellNamed node h.1
    have hrest := expand_wellNamed nodes h.2
    rw [expand]
    intro item hitem
    rcases List.mem_append.1 hitem with hitem | hitem
    · exact hfirst item hitem
    · exact hrest item hitem

end

mutual

theorem settleNode_wellNamed : ∀ node : Node, node.WellNamed →
    ∀ use ∈ (settleNode c parent node).value, FieldUse.WellNamed use
  | .field head children, h => by simpa [settleNode, FieldUse.WellNamed] using h
  | .condition on label children, h => by
    rw [settleNode]
    split_ifs
    · exact settle_wellNamed children h.2
    · exact settle_wellNamed children h.2
    · simp
  | .group children, h => by
    rw [settleNode]
    exact settle_wellNamed children h
  | .opened _ _ body, h => by
    rw [settleNode]
    exact settleNode_wellNamed (body ()) h.2
  | .cycle _, _ => by simp [settleNode]
  | .unknown _, _ => by simp [settleNode]

theorem settle_wellNamed : ∀ nodes : List Node, Node.AllWellNamed nodes →
    ∀ use ∈ (settle c parent nodes).value, FieldUse.WellNamed use
  | [], _ => by simp [settle]
  | node :: nodes, h => by
    have hfirst := settleNode_wellNamed node h.1
    have hrest := settle_wellNamed nodes h.2
    rw [settle]
    intro use huse
    rcases List.mem_append.1 huse with huse | huse
    · exact hfirst use huse
    · exact hrest use huse

end

end Selection

/-! ## Resolved selections -/

mutual

/-- Every name of a field, of a variant or inside a type in the selection is one that documents can
write. -/
def Selection.WellNamed : Selection → Prop
  | ⟨_, fields, variants⟩ => SelectedField.AllWellNamed fields ∧ Variant.AllWellNamed variants

/-- Every name in the fields is one that documents can write. -/
def SelectedField.AllWellNamed : List SelectedField → Prop
  | [] => True
  | ⟨info, none⟩ :: fields =>
    (Text.isAsciiName info.name = true ∧ info.type.WellNamed) ∧ SelectedField.AllWellNamed fields
  | ⟨info, some selection⟩ :: fields =>
    (Text.isAsciiName info.name = true ∧ info.type.WellNamed) ∧ selection.WellNamed ∧
      SelectedField.AllWellNamed fields

/-- Every name in the variants is one that documents can write. -/
def Variant.AllWellNamed : List Variant → Prop
  | [] => True
  | ⟨typeName, selection⟩ :: variants =>
    Text.isAsciiName typeName = true ∧ selection.WellNamed ∧ Variant.AllWellNamed variants

end

theorem SelectedField.allWellNamed_iff {fields : List SelectedField} :
    SelectedField.AllWellNamed fields ↔ ∀ f ∈ fields,
      Text.isAsciiName f.info.name = true ∧ f.info.type.WellNamed ∧ ∀ s ∈ f.selection, s.WellNamed := by
  induction fields with
  | nil => simp [SelectedField.AllWellNamed]
  | cons field fields ih =>
    obtain ⟨info, _ | selection⟩ := field
    · simp [SelectedField.AllWellNamed, ih]
    · simp [SelectedField.AllWellNamed, ih, and_assoc]

theorem Variant.allWellNamed_iff {variants : List Variant} :
    Variant.AllWellNamed variants ↔
      ∀ v ∈ variants, Text.isAsciiName v.typeName = true ∧ v.selection.WellNamed := by
  induction variants with
  | nil => simp [Variant.AllWellNamed]
  | cons variant variants ih =>
    obtain ⟨typeName, selection⟩ := variant
    simp [Variant.AllWellNamed, ih, and_assoc]

namespace Selection

/-- The types of a schema in use are well named. -/
def Context.WellNamed (c : Context) : Prop := ∀ s ∈ c.schema, s.WellNamed

/-- What comes from below is well named if the nodes are. -/
def Below.WellNamed (below : Below) : Prop :=
  ∀ parent nodes, Node.AllWellNamed nodes → (below parent nodes).value.WellNamed

variable {c : Context} {below : Below} {parent : Option String}

theorem resolveChildren_wellNamed (hbelow : Below.WellNamed below) {children : List Node}
    (h : Node.AllWellNamed children) :
    ∀ s ∈ (resolveChildren below parent children).value, s.WellNamed := by
  unfold resolveChildren
  split_ifs
  · simp
  · rintro s ⟨⟩
    exact hbelow parent children h

theorem lookUp_eq_some {name : String} {d : Schema.FieldDefinition}
    (h : (lookUp c parent name).value = some d) :
    ∃ s type, c.schema = some s ∧ parent = some type ∧ s.hasType type = true ∧
      s.field? type name = some d := by
  unfold lookUp at h
  split at h
  · next s type hs =>
    split at h
    · next htype =>
      split at h
      · next definition hdefinition =>
        cases h
        exact ⟨s, type, hs, rfl, htype, hdefinition⟩
      · split at h <;> cases h
    · cases h
  · cases h

theorem lookUp_wellNamed (hc : c.WellNamed) {name : String} {d : Schema.FieldDefinition}
    (h : (lookUp c parent name).value = some d) : d.type.WellNamed := by
  obtain ⟨s, type, hs, -, -, hd⟩ := lookUp_eq_some h
  obtain ⟨t, ht, hmem⟩ := Schema.mem_ownFields_of_field? hd
  exact ((hc s hs t ht).fields d hmem).2

theorem typenameType_wellNamed : typenameType.WellNamed :=
  (by decide : Text.isAsciiName "String" = true)

theorem untyped_wellNamed : untyped.WellNamed := (by decide : Text.isAsciiName "String" = true)

theorem resolveField_wellNamed (hc : c.WellNamed) (hbelow : Below.WellNamed below) {name : String}
    (hname : Text.isAsciiName name = true) {uses : List FieldUse}
    (huses : ∀ use ∈ uses, FieldUse.WellNamed use) :
    ∀ f ∈ (resolveField c below parent name uses).value, Text.isAsciiName f.info.name = true ∧
      f.info.type.WellNamed ∧ ∀ s ∈ f.selection, s.WellNamed := by
  have hchildren : Node.AllWellNamed (uses.flatMap (·.2)) := by
    rw [Node.allWellNamed_iff]
    intro node hnode
    obtain ⟨use, huse, hmem⟩ := List.mem_flatMap.1 hnode
    exact Node.allWellNamed_iff.1 (huses use huse).2.2 node hmem
  have hdeclared : ∀ t ∈ uses.findSome? (·.1.declaredType), t.WellNamed := by
    intro t ht
    obtain ⟨use, huse, hmem⟩ := List.exists_of_findSome?_eq_some ht
    exact (huses use huse).2.1 t hmem
  intro f hf
  rw [resolveField] at hf
  dsimp only at hf
  split at hf
  · cases hf
    exact ⟨hname, typenameType_wellNamed, resolveChildren_wellNamed hbelow hchildren⟩
  · rw [value_bind] at hf
    split at hf
    · next definition hdefinition =>
      cases hf
      exact ⟨hname, lookUp_wellNamed hc hdefinition, resolveChildren_wellNamed hbelow hchildren⟩
    · split at hf
      · cases hf
      · cases hf
        refine ⟨hname, ?_, resolveChildren_wellNamed hbelow hchildren⟩
        cases htype : uses.findSome? (·.1.declaredType) with
        | none => exact untyped_wellNamed
        | some t => exact hdeclared t htype

theorem resolveFields_wellNamed (hc : c.WellNamed) (hbelow : Below.WellNamed below)
    {groups : KeyedList (List FieldUse)} (hgroups : ∀ group ∈ groups,
      Text.isAsciiName group.1 = true ∧ ∀ use ∈ group.2, FieldUse.WellNamed use) :
    SelectedField.AllWellNamed (resolveFields c below parent groups).value := by
  rw [SelectedField.allWellNamed_iff]
  induction groups with
  | nil => simp [resolveFields]
  | cons group groups ih =>
    obtain ⟨hname, huses⟩ := hgroups group (by simp)
    intro f hf
    rcases List.mem_append.1 hf with hf | hf
    · exact resolveField_wellNamed hc hbelow hname huses f (by simpa using hf)
    · exact ih (fun other hother => hgroups other (by simp [hother])) f hf

theorem mem_fieldGroups {uses : List FieldUse} {name : String} {members : List FieldUse} :
    (name, members) ∈ fieldGroups uses ↔
      (∃ use ∈ uses, use.1.name = name) ∧ members = uses.filter (·.1.name = name) := by
  have hvalues : KeyedList.valuesOf (uses.map fun use => (use.1.name, use)) name =
      uses.filter (·.1.name = name) := by
    simp [KeyedList.valuesOf, List.filter_map, Function.comp_def]
  rw [fieldGroups, KeyedList.mem_groupPairs, hvalues]
  simp

theorem fieldGroups_wellNamed {uses : List FieldUse} (huses : ∀ use ∈ uses, FieldUse.WellNamed use) :
    ∀ group ∈ fieldGroups uses,
      Text.isAsciiName group.1 = true ∧ ∀ use ∈ group.2, FieldUse.WellNamed use := by
  rintro ⟨name, members⟩ hgroup
  obtain ⟨⟨use, huse, rfl⟩, rfl⟩ := mem_fieldGroups.1 hgroup
  exact ⟨(huses use huse).1, fun other hother => huses other (List.mem_filter.1 hother).1⟩

theorem fieldUses_wellNamed {items : List Item} (h : ∀ item ∈ items, item.WellNamed) :
    ∀ use ∈ fieldUses items, FieldUse.WellNamed use := by
  intro use huse
  obtain ⟨item, hitem, heq⟩ := List.mem_filterMap.1 huse
  cases item with
  | field head children =>
    cases heq
    exact h _ hitem
  | condition => cases heq

theorem isAsciiName_of_mem_variantTypes (hc : c.WellNamed) {on type : String}
    (hon : Text.isAsciiName on = true) (h : type ∈ c.variantTypes parent on) :
    Text.isAsciiName type = true := by
  unfold Context.variantTypes at h
  split at h
  · rwa [List.mem_singleton.1 h]
  · next s hs =>
    split_ifs at h
    · split at h
      · split_ifs at h
        · exact (hc s hs).of_mem_possibleTypes (List.mem_filter.1 h).1
        · exact (hc s hs).of_mem_possibleTypes h
      · exact (hc s hs).of_mem_possibleTypes h
    · rwa [List.mem_singleton.1 h]

theorem variantGroups_wellNamed (hc : c.WellNamed) {items : List Item}
    (h : ∀ item ∈ items, item.WellNamed) : ∀ group ∈ variantGroups c parent items,
      Text.isAsciiName group.1 = true ∧ Node.AllWellNamed group.2.flatten := by
  have hpair : ∀ type children, (type, children) ∈ (items.flatMap fun
      | .field .. => []
      | .condition on children => (c.variantTypes parent on).map (·, children)) →
      Text.isAsciiName type = true ∧ Node.AllWellNamed children := by
    intro type children hmem
    obtain ⟨item, hitem, hmem⟩ := List.mem_flatMap.1 hmem
    cases item with
    | field => cases hmem
    | condition on nodes =>
      obtain ⟨type', htype, heq⟩ := List.mem_map.1 hmem
      cases heq
      exact ⟨isAsciiName_of_mem_variantTypes hc (h _ hitem).1 htype, (h _ hitem).2⟩
  rintro ⟨type, members⟩ hgroup
  obtain ⟨hkey, rfl⟩ := KeyedList.mem_groupPairs.1 hgroup
  obtain ⟨⟨type', children⟩, hmem, rfl⟩ := List.mem_map.1 hkey
  refine ⟨(hpair _ _ hmem).1, Node.allWellNamed_iff.2 fun node hnode => ?_⟩
  obtain ⟨row, hrow, hnode⟩ := List.mem_flatten.1 hnode
  exact Node.allWellNamed_iff.1 (hpair _ _ (KeyedList.mem_valuesOf.1 hrow)).2 node hnode

theorem resolveVariants_wellNamed (hbelow : Below.WellNamed below)
    {groups : KeyedList (List (List Node))} (hgroups : ∀ group ∈ groups,
      Text.isAsciiName group.1 = true ∧ Node.AllWellNamed group.2.flatten) :
    Variant.AllWellNamed (resolveVariants below groups).value := by
  induction groups with
  | nil => trivial
  | cons group groups ih =>
    obtain ⟨hname, hnodes⟩ := hgroups group (by simp)
    exact ⟨hname, hbelow _ _ hnodes, ih fun other hother => hgroups other (by simp [hother])⟩

theorem resolveLevel_wellNamed (hc : c.WellNamed) (hbelow : Below.WellNamed below) :
    Below.WellNamed (resolveLevel c below) := by
  intro parent nodes h
  have hitems := expand_wellNamed c parent nodes h
  rw [resolveLevel, value_bind]
  split_ifs
  · exact ⟨resolveFields_wellNamed hc hbelow (fieldGroups_wellNamed (fieldUses_wellNamed hitems)),
      resolveVariants_wellNamed hbelow (variantGroups_wellNamed hc hitems)⟩
  · exact ⟨resolveFields_wellNamed hc hbelow
      (fieldGroups_wellNamed (settle_wellNamed c parent nodes h)), trivial⟩

theorem resolveWithin_wellNamed (hc : c.WellNamed) (levels : Nat) :
    Below.WellNamed (resolveWithin c levels) := by
  induction levels with
  | zero => exact fun _ _ _ => ⟨trivial, trivial⟩
  | succ levels ih => exact resolveLevel_wellNamed hc ih

end Selection

/-! ## Resolved fragments -/

/-- The fragment is defined in some document. -/
def Fragment.OfDocument (f : Fragment) : Prop :=
  ∃ text fragments, Fragment.parseDocument text = .ok fragments ∧ f ∈ fragments

theorem Fragment.OfDocument.wellNamed {f : Fragment} (h : f.OfDocument) : f.WellNamed := by
  obtain ⟨text, fragments, hparse, hf⟩ := h
  exact Fragment.wellNamed_of_parseDocument hparse f hf

/-- A fragment of a document, resolved among fragments of documents and against no schema or one that
comes from documents. -/
def ResolvedFragment.OfDocuments (r : ResolvedFragment) : Prop :=
  ∃ (c : Selection.Context) (known : List Fragment) (f : Fragment),
    (∀ s ∈ c.schema, s.OfDocuments) ∧ (∀ g ∈ known, g.OfDocument) ∧ f.OfDocument ∧
      r = f.resolve c known

/-- Every name in what documents resolve to is one that documents can write. -/
theorem ResolvedFragment.OfDocuments.wellNamed {r : ResolvedFragment} (h : r.OfDocuments) :
    Text.isAsciiName r.name = true ∧ r.selection.WellNamed := by
  obtain ⟨c, known, f, hc, hknown, hf, rfl⟩ := h
  refine ⟨hf.wellNamed.1, Selection.resolveWithin_wellNamed (fun s hs => (hc s hs).wellNamed) _ _ _ ?_⟩
  exact Fragment.unfold_wellNamed (fun g hg => (hknown g hg).wellNamed) hf.wellNamed

end FragmentShapes
