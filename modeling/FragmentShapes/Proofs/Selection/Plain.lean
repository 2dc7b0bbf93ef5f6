import FragmentShapes.Proofs.Selection.Slots
import FragmentShapes.Shape.Assembly

/-!
# Selections without descriptions

Whether descriptions are kept decides on nothing but the descriptions of the fields: without them, a
selection has the same slots, the same objects and the same signature, and it is what the fragment
resolves to where they are not asked for (`Fragment.plain_resolve`).
-/

namespace FragmentShapes

/-- The field without its description. -/
def FieldInfo.plain (info : FieldInfo) : FieldInfo := { info with description := none }

mutual

/-- The selection without the descriptions of its fields, at any depth. -/
def Selection.plain : Selection → Selection
  | ⟨typeName, fields, variants⟩ => ⟨typeName, SelectedField.plainAll fields, Variant.plainAll variants⟩

/-- The fields without descriptions. -/
def SelectedField.plainAll : List SelectedField → List SelectedField
  | [] => []
  | ⟨info, none⟩ :: fields => ⟨info.plain, none⟩ :: SelectedField.plainAll fields
  | ⟨info, some selection⟩ :: fields =>
    ⟨info.plain, some selection.plain⟩ :: SelectedField.plainAll fields

/-- The variants without the descriptions of fields. -/
def Variant.plainAll : List Variant → List Variant
  | [] => []
  | ⟨typeName, selection⟩ :: variants => ⟨typeName, selection.plain⟩ :: Variant.plainAll variants

end

/-- The field without descriptions. -/
def SelectedField.plain (f : SelectedField) : SelectedField :=
  ⟨f.info.plain, f.selection.map Selection.plain⟩

theorem SelectedField.plainAll_eq_map (fields : List SelectedField) :
    SelectedField.plainAll fields = fields.map SelectedField.plain := by
  induction fields with
  | nil => rfl
  | cons f fields ih =>
    obtain ⟨info, _ | selection⟩ := f <;> simp [SelectedField.plainAll, SelectedField.plain, ih]

theorem Variant.plainAll_eq_map (variants : List Variant) :
    Variant.plainAll variants = variants.map fun v => ⟨v.typeName, v.selection.plain⟩ := by
  induction variants with
  | nil => rfl
  | cons v variants ih => obtain ⟨typeName, selection⟩ := v; simp [Variant.plainAll, ih]

/-! ## What does not change -/

mutual

theorem Selection.signature_plain : ∀ sel : Selection, sel.plain.signature = sel.signature
  | ⟨typeName, fields, variants⟩ => by
    rw [Selection.plain, Selection.signature, Selection.signature, Variant.signatures_plain variants,
      SelectedField.signatures_plain fields]

theorem SelectedField.signatures_plain : ∀ (fields : List SelectedField) (rest : Signature),
    SelectedField.signatures (SelectedField.plainAll fields) rest = SelectedField.signatures fields rest
  | [], _ => rfl
  | ⟨info, none⟩ :: fields, rest => by
    rw [SelectedField.plainAll, SelectedField.signatures, SelectedField.signatures,
      SelectedField.signatures_plain fields]
    rfl
  | ⟨info, some selection⟩ :: fields, rest => by
    rw [SelectedField.plainAll, SelectedField.signatures, SelectedField.signatures,
      SelectedField.signatures_plain fields, Selection.signature_plain selection]
    rfl

theorem Variant.signatures_plain : ∀ (variants : List Variant) (rest : Signature),
    Variant.signatures (Variant.plainAll variants) rest = Variant.signatures variants rest
  | [], _ => rfl
  | ⟨typeName, selection⟩ :: variants, rest => by
    rw [Variant.plainAll, Variant.signatures, Variant.signatures, Variant.signatures_plain variants,
      Selection.signature_plain selection]

end

namespace Selection

@[simp] theorem typeName_plain (sel : Selection) : sel.plain.typeName = sel.typeName := by
  cases sel
  rfl

@[simp] theorem isDiscriminated_plain (sel : Selection) :
    sel.plain.isDiscriminated = sel.isDiscriminated := by
  obtain ⟨typeName, fields, variants⟩ := sel
  simp [plain, isDiscriminated, Variant.plainAll_eq_map]

mutual

/-- The same places have a selection of their own. -/
theorem objects_plain : ∀ sel : Selection,
    sel.plain.objects = sel.objects.map fun (stem, type, inner) => (stem, type, inner.plain)
  | ⟨typeName, fields, variants⟩ => by
    rw [plain, objects, objects, fieldObjects_plain fields, variantObjects_plain variants, List.map_append]

theorem fieldObjects_plain : ∀ fields : List SelectedField,
    SelectedField.objects (SelectedField.plainAll fields) =
      (SelectedField.objects fields).map fun (stem, type, inner) => (stem, type, inner.plain)
  | [] => rfl
  | ⟨info, none⟩ :: fields => by
    rw [SelectedField.plainAll, SelectedField.objects, SelectedField.objects, fieldObjects_plain fields]
  | ⟨info, some selection⟩ :: fields => by
    rw [SelectedField.plainAll, SelectedField.objects, SelectedField.objects, fieldObjects_plain fields,
      objects_plain selection, List.map_cons, List.map_append, typeName_plain]
    rfl

theorem variantObjects_plain : ∀ variants : List Variant,
    Variant.objects (Variant.plainAll variants) =
      (Variant.objects variants).map fun (stem, type, inner) => (stem, type, inner.plain)
  | [] => rfl
  | ⟨typeName, selection⟩ :: variants => by
    rw [Variant.plainAll, Variant.objects, Variant.objects, variantObjects_plain variants,
      objects_plain selection, List.map_cons, List.map_append]

end

end Selection

/-- The slot without descriptions. -/
def Slot.plain : Slot → Slot
  | discriminant => discriminant
  | field info selection => field info.plain (selection.map (·.plain))
  | variant typeName selection => variant typeName selection.plain

theorem Selection.slots_plain (sel : Selection) : sel.plain.slots = sel.slots.map Slot.plain := by
  have hfields : sel.plain.fields = sel.fields.map SelectedField.plain := by
    cases sel
    exact SelectedField.plainAll_eq_map _
  have hvariants : sel.plain.variants = sel.variants.map fun v => ⟨v.typeName, v.selection.plain⟩ := by
    cases sel
    exact Variant.plainAll_eq_map _
  have habsorbs (f : SelectedField) : sel.plain.absorbs f.plain = sel.absorbs f := by
    rw [absorbs, isDiscriminated_plain]
    rfl
  rw [slots, slots, hfields, hvariants, isDiscriminated_plain, List.map_append, List.map_append,
    List.filter_map]
  simp only [Function.comp_def, habsorbs, List.map_map, apply_ite (List.map Slot.plain), List.map_cons,
    List.map_nil]
  rfl

/-- The fragment without the descriptions of its fields. -/
def ResolvedFragment.plain (r : ResolvedFragment) : ResolvedFragment :=
  { r with selection := r.selection.plain }

/-! ## Resolution without descriptions -/

/-- What was found stays the same. -/
def Noted.map {α β : Type} (f : α → β) (noted : Noted α) : Noted β := ⟨f noted.value, noted.findings⟩

namespace Selection

/-- The context without descriptions. -/
def Context.plain (c : Context) : Context := { c with descriptions := false }

variable (c : Context) (parent : Option String)

mutual

theorem expandNode_plain : ∀ node : Node, expandNode c.plain parent node = expandNode c parent node
  | .field _ _ => by rw [expandNode, expandNode]
  | .condition _ _ children => by rw [expandNode, expandNode, expand_plain children]
  | .group children => by rw [expandNode, expandNode, expand_plain children]
  | .opened _ _ body => by
    rw [expandNode, expandNode, expandNode_plain (body ())]
    rfl
  | .cycle _ => by rw [expandNode, expandNode]
  | .unknown _ => by rw [expandNode, expandNode]

theorem expand_plain : ∀ nodes : List Node, expand c.plain parent nodes = expand c parent nodes
  | [] => rfl
  | node :: nodes => by rw [expand, expand, expandNode_plain node, expand_plain nodes]

end

mutual

theorem settleNode_plain : ∀ node : Node, settleNode c.plain parent node = settleNode c parent node
  | .field _ _ => by rw [settleNode, settleNode]
  | .condition _ _ children => by
    rw [settleNode, settleNode, settle_plain children, expand_plain]
    rfl
  | .group children => by rw [settleNode, settleNode, settle_plain children]
  | .opened _ _ body => by rw [settleNode, settleNode, settleNode_plain (body ())]
  | .cycle _ => by rw [settleNode, settleNode]
  | .unknown _ => by rw [settleNode, settleNode]

theorem settle_plain : ∀ nodes : List Node, settle c.plain parent nodes = settle c parent nodes
  | [] => rfl
  | node :: nodes => by rw [settle, settle, settleNode_plain node, settle_plain nodes]

end

/-! ### Levels -/

variable (below : Below)

/-- What comes from below, without descriptions. -/
def Below.plain : Below := fun parent nodes => (below parent nodes).map Selection.plain

theorem resolveChildren_plain (children : List Node) :
    resolveChildren (Below.plain below) parent children =
      (resolveChildren below parent children).map (·.map Selection.plain) := by
  unfold resolveChildren
  split_ifs
  · rfl
  · rfl

theorem resolveField_plain (name : String) (uses : List FieldUse) :
    resolveField c.plain (Below.plain below) parent name uses =
      (resolveField c below parent name uses).map (·.map SelectedField.plain) := by
  have hlookUp : lookUp c.plain parent name = lookUp c parent name := rfl
  have homitted : isOmitted c.plain parent = isOmitted c parent := rfl
  unfold resolveField
  dsimp only
  rw [hlookUp, homitted]
  by_cases hname : name = typenameField
  · rw [if_pos hname, if_pos hname, resolveChildren_plain]
    rfl
  · rw [if_neg hname, if_neg hname]
    rcases lookUp c parent name with ⟨_ | definition, findings⟩
    · cases isOmitted c parent with
      | true => rfl
      | false =>
        rw [resolveChildren_plain]
        rfl
    · simp only [resolveChildren_plain]
      rfl

theorem resolveFields_plain (groups : KeyedList (List FieldUse)) :
    resolveFields c.plain (Below.plain below) parent groups =
      (resolveFields c below parent groups).map SelectedField.plainAll := by
  induction groups with
  | nil => rfl
  | cons group groups ih =>
    obtain ⟨name, uses⟩ := group
    have happend (field : Option SelectedField) (fields : List SelectedField) :
        (field.map SelectedField.plain).toList ++ SelectedField.plainAll fields =
          SelectedField.plainAll (field.toList ++ fields) := by
      cases field <;> simp [SelectedField.plainAll_eq_map]
    rw [resolveFields, resolveFields, ih, resolveField_plain]
    exact congrArg (Noted.mk · _) (happend _ _)

theorem resolveVariants_plain (groups : KeyedList (List (List Node))) :
    resolveVariants (Below.plain below) groups =
      (resolveVariants below groups).map Variant.plainAll := by
  induction groups with
  | nil => rfl
  | cons group groups ih =>
    obtain ⟨type, children⟩ := group
    rw [resolveVariants, resolveVariants, ih]
    rfl

theorem resolveLevel_plain :
    resolveLevel c.plain (Below.plain below) = Below.plain (resolveLevel c below) := by
  have hpolymorphic (parent : Option String) : c.plain.isPolymorphic parent = c.isPolymorphic parent := rfl
  have hgroups (parent : Option String) (items : List Item) :
      variantGroups c.plain parent items = variantGroups c parent items := rfl
  funext parent nodes
  rw [Below.plain, resolveLevel, resolveLevel, expand_plain, settle_plain]
  simp only [resolveFields_plain, resolveVariants_plain, hpolymorphic, hgroups]
  rcases expand c parent nodes with ⟨items, findings⟩
  cases hconditional : items.any Item.isConditional && c.isPolymorphic parent with
  | true => simp only [bind, hconditional]; rfl
  | false => simp only [bind, hconditional]; rfl

theorem resolveWithin_plain (levels : Nat) :
    resolveWithin c.plain levels = Below.plain (resolveWithin c levels) := by
  induction levels with
  | zero => rfl
  | succ levels ih =>
    have hlevel (c : Context) (levels : Nat) :
        resolveWithin c (levels + 1) = resolveLevel c (resolveWithin c levels) := rfl
    rw [hlevel, hlevel, ih, resolveLevel_plain]

end Selection

/-- Without descriptions, a fragment resolves to what it resolves to where they are not kept, and the
same is found. -/
theorem Fragment.plain_resolve (c : Selection.Context) (known : List Fragment) (f : Fragment) :
    (f.resolve c known).plain = f.resolve c.plain known := by
  rw [resolve, resolve, Selection.resolveWithin_plain]
  rfl

end FragmentShapes
