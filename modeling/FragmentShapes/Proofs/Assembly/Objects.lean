import FragmentShapes.Proofs.Selection.Slots
import FragmentShapes.Shape.Assembly

/-!
# Objects of a selection

The places of a selection that have a selection of their own, level by level (`Selection.objects_eq`).
Where the stems of each level stay apart, the stems on the way to a position tell where it is
(`Selection.DistinctStems.position_eq`).
-/

namespace FragmentShapes

namespace Selection

/-- The places of one level that have a selection of their own. -/
def levelObjects (sel : Selection) : List (String × Option String × Selection) :=
  sel.fields.filterMap (fun f => f.selection.map fun inner => (f.info.name, inner.typeName, inner)) ++
    sel.variants.map fun v => (NamingPolicy.variantMember v.typeName, some v.typeName, v.selection)

theorem fieldObjects_eq (fields : List SelectedField) :
    SelectedField.objects fields = (fields.filterMap fun f => f.selection.map fun inner =>
      (f.info.name, inner.typeName, inner)).flatMap fun o => o :: o.2.2.objects := by
  induction fields with
  | nil => rfl
  | cons f fields ih =>
    obtain ⟨info, selection⟩ := f
    cases selection with
    | none => rw [SelectedField.objects, ih]; rfl
    | some inner => rw [SelectedField.objects, ih]; rfl

theorem variantObjects_eq (variants : List Variant) :
    Variant.objects variants = (variants.map fun v =>
      (NamingPolicy.variantMember v.typeName, some v.typeName, v.selection)).flatMap
        fun o => o :: o.2.2.objects := by
  induction variants with
  | nil => rfl
  | cons v variants ih =>
    obtain ⟨typeName, inner⟩ := v
    rw [Variant.objects, ih]
    rfl

/-- The objects of a selection are those of its level, each with the ones inside it. -/
theorem objects_eq (sel : Selection) :
    sel.objects = sel.levelObjects.flatMap fun o => o :: o.2.2.objects := by
  obtain ⟨typeName, fields, variants⟩ := sel
  rw [objects, fieldObjects_eq, variantObjects_eq, levelObjects, List.flatMap_append]

theorem mem_levelObjects {sel : Selection} {o : String × Option String × Selection} :
    o ∈ sel.levelObjects ↔
      (∃ f ∈ sel.fields, f.selection = some o.2.2 ∧ o.1 = f.info.name ∧ o.2.1 = o.2.2.typeName) ∨
        ∃ v ∈ sel.variants, o = (NamingPolicy.variantMember v.typeName, some v.typeName, v.selection) := by
  obtain ⟨stem, type, inner⟩ := o
  rw [levelObjects, List.mem_append, List.mem_filterMap, List.mem_map]
  refine or_congr (exists_congr fun f => and_congr_right fun _ => ?_)
    (exists_congr fun v => and_congr_right fun _ => eq_comm)
  rw [Option.map_eq_some_iff]
  constructor
  · rintro ⟨inner, hinner, heq⟩
    cases heq
    exact ⟨hinner, rfl, rfl⟩
  · rintro ⟨hinner, hstem, htype⟩
    dsimp only at hstem htype
    rw [hstem, htype]
    exact ⟨inner, hinner, rfl⟩

theorem mem_objects {sel : Selection} {o : String × Option String × Selection} :
    o ∈ sel.objects ↔ ∃ p ∈ sel.levelObjects, o = p ∨ o ∈ p.2.2.objects := by
  rw [objects_eq, List.mem_flatMap]
  simp only [List.mem_cons]

theorem sizeOf_lt_of_mem_levelObjects {sel : Selection} {o : String × Option String × Selection}
    (h : o ∈ sel.levelObjects) :
    sizeOf o.2.2 < sizeOf sel ∧ sizeOf o.2.2.signature < sizeOf sel.signature := by
  obtain ⟨-, hfields, hvariants⟩ := sel.marks_signature
  rcases mem_levelObjects.1 h with ⟨f, hf, hselection, -, -⟩ | ⟨v, hv, rfl⟩
  · constructor
    · obtain ⟨typeName, fields, variants⟩ := sel
      obtain ⟨info, selection⟩ := f
      have hlt := List.sizeOf_lt_of_mem hf
      cases hselection
      simp only [SelectedField.mk.sizeOf_spec, Option.some.sizeOf_spec] at hlt
      simp only [Selection.mk.sizeOf_spec]
      omega
    · have hmark := List.mem_map_of_mem (f := SelectedField.mark) hf
      rw [← hfields, SelectedField.mark, hselection] at hmark
      exact sizeOf_lt_of_fieldMarks hmark
  · constructor
    · obtain ⟨typeName, fields, variants⟩ := sel
      obtain ⟨type, selection⟩ := v
      have hlt := List.sizeOf_lt_of_mem hv
      simp only [Variant.mk.sizeOf_spec] at hlt
      simp only [Selection.mk.sizeOf_spec]
      omega
    · have hmark := List.mem_map_of_mem (f := Variant.mark) hv
      rw [← hvariants] at hmark
      exact sizeOf_lt_of_variantMarks hmark

/-- What holds of a selection if it holds of those of its level holds of all. -/
theorem level_induction {motive : Selection → Prop}
    (step : ∀ sel : Selection, (∀ o ∈ sel.levelObjects, motive o.2.2) → motive sel)
    (sel : Selection) : motive sel := by
  induction hsize : sizeOf sel using Nat.strongRecOn generalizing sel with
  | _ n ih =>
    exact step sel fun o ho => ih _ (hsize ▸ (sizeOf_lt_of_mem_levelObjects ho).1) o.2.2 rfl

theorem sizeOf_lt_of_mem_objects {sel : Selection} {o : String × Option String × Selection}
    (h : o ∈ sel.objects) : sizeOf o.2.2.signature < sizeOf sel.signature := by
  induction sel using level_induction with
  | step sel ih =>
    obtain ⟨p, hp, rfl | ho⟩ := mem_objects.1 h
    · exact (sizeOf_lt_of_mem_levelObjects hp).2
    · exact Nat.lt_trans (ih p hp ho) (sizeOf_lt_of_mem_levelObjects hp).2

/-- A slot with a selection is an object of its level. -/
theorem exists_mem_levelObjects {sel inner : Selection} {slot : Slot} (hslot : slot ∈ sel.slots)
    (hinner : slot.selection? = some inner) : ∃ type, (slot.name, type, inner) ∈ sel.levelObjects := by
  rcases mem_slots.1 hslot with ⟨-, rfl⟩ | ⟨f, hf, -, rfl⟩ | ⟨v, hv, rfl⟩
  · cases hinner
  · exact ⟨inner.typeName, mem_levelObjects.2 (.inl ⟨f, hf, hinner, rfl, rfl⟩)⟩
  · cases hinner
    exact ⟨some v.typeName, mem_levelObjects.2 (.inr ⟨v, hv, rfl⟩)⟩

theorem WellNamed.objects {sel : Selection} (h : sel.WellNamed) :
    ∀ o ∈ sel.objects, Text.isAsciiName o.1 = true := by
  have hlevel : ∀ sel : Selection, sel.WellNamed → ∀ o ∈ sel.levelObjects,
      Text.isAsciiName o.1 = true ∧ o.2.2.WellNamed := by
    rintro ⟨typeName, fields, variants⟩ ⟨hfields, hvariants⟩ o ho
    rcases mem_levelObjects.1 ho with ⟨f, hf, hinner, hstem, -⟩ | ⟨v, hv, rfl⟩
    · have hwell := SelectedField.allWellNamed_iff.1 hfields f hf
      exact ⟨hstem ▸ hwell.1, hwell.2.2 o.2.2 hinner⟩
    · have hwell := Variant.allWellNamed_iff.1 hvariants v hv
      exact ⟨Text.isAsciiName_append (by decide : Text.isAsciiName "as" = true)
        (List.all_eq_true.2 (Text.isAsciiName_chars hwell.1).2), hwell.2⟩
  induction sel using level_induction with
  | step sel ih =>
    intro o ho
    obtain ⟨p, hp, rfl | ho⟩ := mem_objects.1 ho
    · exact (hlevel sel h o hp).1
    · exact ih p hp (hlevel sel h p hp).2 o ho

/-! ## Stems -/

/-- On every level the stems of objects stay apart when their first letters are capitalized. -/
def DistinctStems (sel : Selection) : Prop :=
  ∀ inner ∈ sel :: sel.objects.map (·.2.2),
    (inner.levelObjects.map fun o => Text.capitalize o.1).Nodup

instance (sel : Selection) : Decidable sel.DistinctStems :=
  inferInstanceAs (Decidable (∀ inner ∈ sel :: sel.objects.map (·.2.2),
    (inner.levelObjects.map fun o => Text.capitalize o.1).Nodup))

variable {sel : Selection}

theorem DistinctStems.of_slot (h : sel.DistinctStems) :
    ∀ slot ∈ sel.slots, ∀ inner, slot.selection? = some inner → inner.DistinctStems := by
  intro slot hslot inner hinner deeper hdeeper
  obtain ⟨type, hobject⟩ := exists_mem_levelObjects hslot hinner
  refine h deeper (List.mem_cons_of_mem _ (List.mem_map.2 ?_))
  rcases List.mem_cons.1 hdeeper with rfl | hdeeper
  · exact ⟨_, mem_objects.2 ⟨_, hobject, .inl rfl⟩, rfl⟩
  · obtain ⟨o, ho, rfl⟩ := List.mem_map.1 hdeeper
    exact ⟨o, mem_objects.2 ⟨_, hobject, .inr ho⟩, rfl⟩

/-- The stem of an object, capitalized. -/
def objectStem? (slot : Slot) : Option String :=
  slot.selection?.map fun _ => Text.capitalize slot.name

theorem DistinctStems.slots (h : sel.DistinctStems) : (sel.slots.filterMap objectStem?).Nodup := by
  -- The discriminant has no stem, and absorbing a field only takes one away.
  refine List.Nodup.sublist ?_ (h sel List.mem_cons_self)
  have hfields : List.Sublist (((sel.fields.filter (!sel.absorbs ·)).map
      fun f => Slot.field f.info f.selection).filterMap objectStem?)
        ((sel.fields.filterMap fun f => f.selection.map fun inner =>
          (f.info.name, inner.typeName, inner)).map fun o => Text.capitalize o.1) := by
    have hstem : (fun f : SelectedField => (f.selection.map fun inner =>
        (f.info.name, inner.typeName, inner)).map fun o => Text.capitalize o.1) =
          objectStem? ∘ fun f => Slot.field f.info f.selection := by
      funext f
      rw [Option.map_map]
      rfl
    rw [List.map_filterMap, List.filterMap_map, hstem]
    exact List.filter_sublist.filterMap _
  have hvariants : (sel.variants.map fun v => Slot.variant v.typeName v.selection).filterMap
      objectStem? = (sel.variants.map fun v => (NamingPolicy.variantMember v.typeName,
        some v.typeName, v.selection)).map fun o => Text.capitalize o.1 := by
    rw [List.filterMap_map, List.map_map, ← List.filterMap_eq_map]
    rfl
  have hfirst : (if sel.isDiscriminated then [Slot.discriminant] else []).filterMap objectStem? =
      [] := by
    split <;> rfl
  rw [Selection.slots, levelObjects, List.filterMap_append, List.filterMap_append, List.map_append,
    hfirst, List.nil_append, hvariants]
  exact hfields.append_right _

theorem DistinctStems.number_eq (h : sel.DistinctStems) {number number' : Nat} {slot slot' : Slot}
    {inner inner' : Selection} (hslot : sel.slots[number]? = some slot)
    (hslot' : sel.slots[number']? = some slot') (hinner : slot.selection? = some inner)
    (hinner' : slot'.selection? = some inner')
    (hstem : Text.capitalize slot.name = Text.capitalize slot'.name) : number = number' := by
  have hpairs := List.pairwise_iff_getElem.1 (List.pairwise_filterMap.1 h.slots)
  obtain ⟨hlt, rfl⟩ := List.getElem?_eq_some_iff.1 hslot
  obtain ⟨hlt', rfl⟩ := List.getElem?_eq_some_iff.1 hslot'
  have hone : objectStem? sel.slots[number] = some (Text.capitalize sel.slots[number].name) := by
    rw [objectStem?, hinner, Option.map_some]
  have hother : objectStem? sel.slots[number'] = some (Text.capitalize sel.slots[number].name) := by
    rw [objectStem?, hinner', Option.map_some, hstem]
  rcases Nat.lt_trichotomy number number' with hless | heq | hless
  · exact absurd rfl (hpairs number number' hlt hlt' hless _ hone _ hother)
  · exact heq
  · exact absurd rfl (hpairs number' number hlt' hlt hless _ hother _ hone)

/-- A position is known by the stems on the way to it. -/
theorem DistinctStems.position_eq (h : sel.DistinctStems) {position position' : List Nat}
    {inner inner' : Selection} (hposition : sel.below? position = some inner)
    (hposition' : sel.below? position' = some inner')
    (hstems : (sel.stems position).map Text.capitalize = (sel.stems position').map Text.capitalize) :
    position = position' := by
  -- Along both positions: equal stems are those of one slot, and behind it the stems stay distinct.
  induction position generalizing sel position' with
  | nil =>
    cases position' with
    | nil => rfl
    | cons number' position' =>
      obtain ⟨slot', sub', hslot', hsub', -⟩ := below?_cons_eq_some.1 hposition'
      rw [stems_nil, stems_cons hslot' hsub'] at hstems
      cases hstems
  | cons number position ih =>
    obtain ⟨slot, sub, hslot, hsub, hbelow⟩ := below?_cons_eq_some.1 hposition
    rw [stems_cons hslot hsub] at hstems
    cases position' with
    | nil =>
      rw [stems_nil] at hstems
      cases hstems
    | cons number' position' =>
      obtain ⟨slot', sub', hslot', hsub', hbelow'⟩ := below?_cons_eq_some.1 hposition'
      rw [stems_cons hslot' hsub', List.map_cons, List.map_cons, List.cons.injEq] at hstems
      obtain rfl := h.number_eq hslot hslot' hsub hsub' hstems.1
      rw [hslot, Option.some.injEq] at hslot'
      subst hslot'
      rw [hsub, Option.some.injEq] at hsub'
      subst hsub'
      rw [ih (h.of_slot slot (List.mem_of_getElem? hslot) sub hsub) hbelow hbelow' hstems.2]

end Selection

end FragmentShapes
