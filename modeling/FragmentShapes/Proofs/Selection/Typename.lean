import FragmentShapes.Proofs.Assembly.Objects
import FragmentShapes.Proofs.Selection.Termination

/-!
# Selections under `__typename`

The field that tells the concrete type of a value is a text, but a fragment can give it a selection all the
same. Where no fragment does, no resolved selection has one (`Fragment.typenameIsLeaf_resolve`).
-/

namespace FragmentShapes

mutual

/-- The entry does not give `__typename` a selection, at any depth. -/
def Entry.TypenameIsLeaf : Entry → Prop
  | .field head selection =>
    (head.name = Selection.typenameField → selection = []) ∧ Entry.AllTypenameLeaf selection
  | .spread _ => True
  | .condition _ _ selection => Entry.AllTypenameLeaf selection
  | .group selection => Entry.AllTypenameLeaf selection

/-- The entries do not give `__typename` a selection, at any depth. -/
def Entry.AllTypenameLeaf : List Entry → Prop
  | [] => True
  | entry :: entries => entry.TypenameIsLeaf ∧ Entry.AllTypenameLeaf entries

end

theorem Entry.allTypenameLeaf_iff {entries : List Entry} :
    AllTypenameLeaf entries ↔ ∀ entry ∈ entries, entry.TypenameIsLeaf := by
  induction entries with
  | nil => simp [AllTypenameLeaf]
  | cons entry entries ih => simp [AllTypenameLeaf, ih]

namespace Selection

variable {slot : Slot} {sel inner : Selection}

/-- On no level `__typename` has a selection. -/
def TypenameIsLeaf (sel : Selection) : Prop :=
  ∀ inner ∈ sel :: sel.objects.map (·.2.2),
    ∀ f ∈ inner.fields, f.info.name = typenameField → f.selection = none

instance (sel : Selection) : Decidable sel.TypenameIsLeaf :=
  inferInstanceAs (Decidable (∀ inner ∈ sel :: sel.objects.map (·.2.2),
    ∀ f ∈ inner.fields, f.info.name = typenameField → f.selection = none))

theorem TypenameIsLeaf.of_slot (h : sel.TypenameIsLeaf) (hslot : slot ∈ sel.slots)
    (hinner : slot.selection? = some inner) : inner.TypenameIsLeaf := by
  obtain ⟨type, hobject⟩ := exists_mem_levelObjects hslot hinner
  refine fun deeper hdeeper => h deeper (List.mem_cons_of_mem _ (List.mem_map.2 ?_))
  rcases List.mem_cons.1 hdeeper with rfl | hdeeper
  · exact ⟨_, mem_objects.2 ⟨_, hobject, .inl rfl⟩, rfl⟩
  · obtain ⟨o, ho, rfl⟩ := List.mem_map.1 hdeeper
    exact ⟨o, mem_objects.2 ⟨_, hobject, .inr ho⟩, rfl⟩

/-- `__typename` is a leaf of a selection if it is one on its level and inside its fields and variants. -/
theorem TypenameIsLeaf.of_level
    (hfields : ∀ f ∈ sel.fields, (f.info.name = typenameField → f.selection = none) ∧
      ∀ inner ∈ f.selection, inner.TypenameIsLeaf)
    (hvariants : ∀ v ∈ sel.variants, v.selection.TypenameIsLeaf) : sel.TypenameIsLeaf := by
  intro inner hinner
  rcases List.mem_cons.1 hinner with rfl | hinner
  · exact fun f hf => (hfields f hf).1
  · obtain ⟨o, ho, rfl⟩ := List.mem_map.1 hinner
    obtain ⟨p, hp, ho⟩ := mem_objects.1 ho
    have hleaf : p.2.2.TypenameIsLeaf := by
      rcases mem_levelObjects.1 hp with ⟨f, hf, hselection, -, -⟩ | ⟨v, hv, rfl⟩
      · exact (hfields f hf).2 _ hselection
      · exact hvariants v hv
    rcases ho with rfl | ho
    · exact hleaf _ List.mem_cons_self
    · exact hleaf _ (List.mem_cons_of_mem _ (List.mem_map_of_mem ho))

/-! ## Rules -/

/-- No occurrence gives `__typename` a selection. -/
def Occurrence.AllLeaf (os : List Occurrence) : Prop := ∀ o ∈ os, o.entry.TypenameIsLeaf

/-- The use does not give `__typename` a selection. -/
def Use.TypenameIsLeaf (use : Use) : Prop :=
  (use.1.name = typenameField → use.2 = []) ∧ Occurrence.AllLeaf use.2

/-- The part does not give `__typename` a selection. -/
def Part.TypenameIsLeaf : Part → Prop
  | .field use => Use.TypenameIsLeaf use
  | .condition _ children => Occurrence.AllLeaf children

theorem Part.TypenameIsLeaf.children : ∀ {part : Part}, part.TypenameIsLeaf →
    Occurrence.AllLeaf part.children
  | .field _, h => h.2
  | .condition .., h => h

theorem Occurrence.allLeaf_all {trail : List String} {entries : List Entry}
    (h : Entry.AllTypenameLeaf entries) : Occurrence.AllLeaf (Occurrence.all trail entries) := by
  intro o ho
  obtain ⟨entry, hentry, rfl⟩ := List.mem_map.1 ho
  exact Entry.allTypenameLeaf_iff.1 h entry hentry

variable {c : Context} {known : List Fragment} {parent : Option String}

/-- What comes of an occurrence does not give `__typename` a selection. -/
def Opening.TypenameIsLeaf : Opening → Prop
  | .keep part => part.TypenameIsLeaf
  | .inline children => Occurrence.AllLeaf children
  | .drop _ => True

/-- Opening an occurrence leads to its own entries or to those of a known fragment. -/
theorem opening_typenameIsLeaf (hknown : ∀ f ∈ known, Entry.AllTypenameLeaf f.entries)
    {o : Occurrence} (ho : o.entry.TypenameIsLeaf) : (opening c known parent o).TypenameIsLeaf := by
  obtain ⟨entry, trail⟩ := o
  cases entry with
  | field head selection =>
    refine ⟨fun hname => ?_, Occurrence.allLeaf_all ho.2⟩
    rw [ho.1 hname]
    rfl
  | condition on label selection =>
    have hselection : Occurrence.AllLeaf (Occurrence.all trail selection) :=
      Occurrence.allLeaf_all ho
    rw [opening]
    split_ifs
    · exact hselection
    · exact hselection
  | group selection =>
    have hselection : Entry.AllTypenameLeaf selection := ho
    exact Occurrence.allLeaf_all hselection
  | spread name =>
    rw [opening]
    cases hfind : Fragment.find? name known with
    | none => trivial
    | some f =>
      have hentries := hknown f (List.mem_of_find?_eq_some hfind)
      dsimp only
      split_ifs
      · trivial
      · exact fun o ho => List.mem_singleton.1 ho ▸ hentries
      · exact Occurrence.allLeaf_all hentries

theorem Opens.typenameIsLeaf (hknown : ∀ f ∈ known, Entry.AllTypenameLeaf f.entries)
    {os : List Occurrence} {parts : List Part} {findings : List Finding}
    (h : Opens c known parent os parts findings) (hos : Occurrence.AllLeaf os) :
    ∀ part ∈ parts, part.TypenameIsLeaf := by
  induction h with
  | nil => simp
  | keep hstep _ ih =>
    obtain ⟨ho, hos⟩ := List.forall_mem_cons.1 hos
    have hpart := hstep ▸ opening_typenameIsLeaf hknown ho
    exact List.forall_mem_cons.2 ⟨hpart, ih hos⟩
  | inline hstep _ _ ihinner ih =>
    obtain ⟨ho, hos⟩ := List.forall_mem_cons.1 hos
    have hchildren := hstep ▸ opening_typenameIsLeaf hknown ho
    exact List.forall_mem_append.2 ⟨ihinner hchildren, ih hos⟩
  | drop _ _ ih => exact ih (List.forall_mem_cons.1 hos).2

theorem Decides.typenameIsLeaf (hknown : ∀ f ∈ known, Entry.AllTypenameLeaf f.entries)
    {parts : List Part} {uses : List Use} {findings : List Finding}
    (h : Decides c known parent parts uses findings) (hparts : ∀ part ∈ parts, part.TypenameIsLeaf) :
    ∀ use ∈ uses, Use.TypenameIsLeaf use := by
  induction h with
  | nil => simp
  | field _ ih =>
    obtain ⟨huse, hparts⟩ := List.forall_mem_cons.1 hparts
    exact List.forall_mem_cons.2 ⟨huse, ih hparts⟩
  | fails _ _ ih => exact ih (List.forall_mem_cons.1 hparts).2
  | holds _ hopens _ _ ihinner ih =>
    obtain ⟨hchildren, hparts⟩ := List.forall_mem_cons.1 hparts
    exact List.forall_mem_append.2 ⟨ihinner (hopens.typenameIsLeaf hknown hchildren), ih hparts⟩

mutual

/-- Where the occurrences do not give `__typename` a selection, it has none in what they resolve to. -/
theorem ResolvesLevel.typenameIsLeaf (hknown : ∀ f ∈ known, Entry.AllTypenameLeaf f.entries)
    {parent : Option String} {os : List Occurrence} {selection : Selection} {findings : List Finding}
    (h : ResolvesLevel c known parent os selection findings) (hos : Occurrence.AllLeaf os) :
    selection.TypenameIsLeaf :=
  match h with
  | .discriminated hopens _ hfields hvariants => by
    have hparts := hopens.typenameIsLeaf hknown hos
    refine .of_level (hfields.typenameIsLeaf hknown fun group hgroup use huse => ?_)
      (hvariants.typenameIsLeaf hknown fun group hgroup child hchild => ?_)
    · obtain ⟨huse, hname⟩ := mem_useGroups hgroup huse
      exact ⟨hname, hparts _ (mem_partUses.1 huse)⟩
    · obtain ⟨part, hpart, hmem⟩ := mem_conditionGroups hgroup hchild
      exact (hparts part hpart).children child hmem
  | .decided hopens _ hdecides hfields => by
    have huses := hdecides.typenameIsLeaf hknown (hopens.typenameIsLeaf hknown hos)
    refine .of_level (hfields.typenameIsLeaf hknown fun group hgroup use huse => ?_) nofun
    obtain ⟨huse, hname⟩ := mem_useGroups hgroup huse
    exact ⟨hname, huses use huse⟩
termination_by structural h

theorem ResolvesUnder.typenameIsLeaf (hknown : ∀ f ∈ known, Entry.AllTypenameLeaf f.entries)
    {parent : Option String} {os : List Occurrence} {selection : Option Selection}
    {findings : List Finding} (h : ResolvesUnder c known parent os selection findings)
    (hos : Occurrence.AllLeaf os) : ∀ inner ∈ selection, inner.TypenameIsLeaf :=
  match h with
  | .leaf => nofun
  | .object hlevel => by
    rintro inner ⟨⟩
    exact hlevel.typenameIsLeaf hknown hos
termination_by structural h

theorem ResolvesField.typenameIsLeaf (hknown : ∀ f ∈ known, Entry.AllTypenameLeaf f.entries)
    {parent : Option String} {name : String} {uses : List Use} {field : Option SelectedField}
    {findings : List Finding} (h : ResolvesField c known parent name uses field findings)
    (huses : ∀ use ∈ uses, use.1.name = name ∧ Use.TypenameIsLeaf use) :
    ∀ f ∈ field, (f.info.name = typenameField → f.selection = none) ∧
      ∀ inner ∈ f.selection, inner.TypenameIsLeaf := by
  have hchildren : Occurrence.AllLeaf (uses.flatMap (·.2)) := by
    intro o ho
    obtain ⟨use, huse, hmem⟩ := List.mem_flatMap.1 ho
    exact (huses use huse).2.2 o hmem
  match h with
  | .typename hunder =>
    rintro f ⟨⟩
    refine ⟨fun _ => ?_, hunder.typenameIsLeaf hknown hchildren⟩
    -- No use of `__typename` has children, and so there is nothing to resolve under it.
    have hnone : uses.flatMap (·.2) = [] :=
      List.flatMap_eq_nil_iff.2 fun use huse => (huses use huse).2.1 (huses use huse).1
    rw [hnone] at hunder
    cases hunder
    rfl
  | .defined hname _ hunder =>
    rintro f ⟨⟩
    exact ⟨fun htypename => absurd htypename hname, hunder.typenameIsLeaf hknown hchildren⟩
  | .omitted _ _ _ => nofun
  | .undefined hname _ _ hunder =>
    rintro f ⟨⟩
    exact ⟨fun htypename => absurd htypename hname, hunder.typenameIsLeaf hknown hchildren⟩
termination_by structural h

theorem ResolvesFields.typenameIsLeaf (hknown : ∀ f ∈ known, Entry.AllTypenameLeaf f.entries)
    {parent : Option String} {groups : KeyedList (List Use)} {fields : List SelectedField}
    {findings : List Finding} (h : ResolvesFields c known parent groups fields findings)
    (hgroups : ∀ group ∈ groups, ∀ use ∈ group.2, use.1.name = group.1 ∧ Use.TypenameIsLeaf use) :
    ∀ f ∈ fields, (f.info.name = typenameField → f.selection = none) ∧
      ∀ inner ∈ f.selection, inner.TypenameIsLeaf :=
  match h with
  | .nil => nofun
  | .cons hfield hfields => by
    obtain ⟨huses, hgroups⟩ := List.forall_mem_cons.1 hgroups
    refine List.forall_mem_append.2 ⟨fun f hf => ?_, hfields.typenameIsLeaf hknown hgroups⟩
    exact hfield.typenameIsLeaf hknown huses f (Option.mem_toList.1 hf)
termination_by structural h

theorem ResolvesVariants.typenameIsLeaf (hknown : ∀ f ∈ known, Entry.AllTypenameLeaf f.entries)
    {groups : KeyedList (List (List Occurrence))} {variants : List Variant} {findings : List Finding}
    (h : ResolvesVariants c known groups variants findings)
    (hgroups : ∀ group ∈ groups, Occurrence.AllLeaf group.2.flatten) :
    ∀ v ∈ variants, v.selection.TypenameIsLeaf :=
  match h with
  | .nil => nofun
  | .cons hlevel hvariants => by
    obtain ⟨hchildren, hgroups⟩ := List.forall_mem_cons.1 hgroups
    exact List.forall_mem_cons.2
      ⟨hlevel.typenameIsLeaf hknown hchildren, hvariants.typenameIsLeaf hknown hgroups⟩
termination_by structural h

end

end Selection

theorem Fragment.unfold_eq_nodes (known : List Fragment) (f : Fragment) :
    f.unfold known = (Selection.Occurrence.all [f.name] f.entries).map (·.node known) := by
  have hunopened : Selection.unopened known [f.name] = without f.name known :=
    List.filter_congr fun g _ => by simp
  rw [Selection.map_node_all, hunopened, unfold]

theorem Fragment.weight_le_levels {known : List Fragment} {f : Fragment} {o : Selection.Occurrence}
    (ho : o ∈ Selection.Occurrence.all [f.name] f.entries) : o.weight known ≤ f.levels known :=
  Nat.le_trans (Selection.weight_le_of_mem_all ho)
    (Nat.add_le_add_left (Selection.openingLevels_filter_le _ known) _)

/-- Fragments that do not give `__typename` a selection resolve to selections where it has none. -/
theorem Fragment.typenameIsLeaf_resolve (c : Selection.Context) {known : List Fragment}
    (hknown : ∀ g ∈ known, Entry.AllTypenameLeaf g.entries) {f : Fragment}
    (hf : Entry.AllTypenameLeaf f.entries) : (f.resolve c known).selection.TypenameIsLeaf := by
  have hlevel := Selection.derives_resolveWithin c known (f.levels known) (some f.onType)
    (Selection.Occurrence.all [f.name] f.entries) fun _ ho => weight_le_levels ho
  rw [← unfold_eq_nodes] at hlevel
  exact hlevel.typenameIsLeaf hknown (Selection.Occurrence.allLeaf_all hf)

end FragmentShapes
