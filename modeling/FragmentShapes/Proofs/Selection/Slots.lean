import FragmentShapes.Proofs.Naming.Policy
import FragmentShapes.Proofs.Selection.Names
import FragmentShapes.Shape

/-!
# Slots of a selection

What a shape for a selection has to have members for, in order: the discriminant if there are variants,
the fields, the variants. The selections inside a selection are reached through its slots, so a position
is the list of the numbers of the slots on the way down.

`Selection.slots_signature`: selections with the same signature have slots with the same signatures, one
by one. `Slot.sizeOf_signature_lt`: the signature of a selection inside is smaller.
-/

namespace FragmentShapes

/-- What a member of a shape stands for. -/
inductive Slot where
  | discriminant
  | field (info : FieldInfo) (selection : Option Selection)
  | variant (typeName : String) (selection : Selection)

namespace Slot

/-- The name of the member. -/
def name : Slot → String
  | discriminant => Selection.typenameField
  | field info _ => info.name
  | variant typeName _ => NamingPolicy.variantMember typeName

/-- The type of the member. -/
def type : Slot → TypeRef
  | discriminant => Selection.typenameType
  | field info _ => info.type
  | variant typeName _ => .named typeName true

/-- The field is deprecated. -/
def isDeprecated : Slot → Bool
  | field info _ => info.deprecation.isSome
  | _ => false

/-- What the member stands for. -/
def role : Slot → MemberRole
  | discriminant => .discriminant
  | field .. => .field
  | variant typeName _ => .variant typeName

/-- The selection inside. -/
def selection? : Slot → Option Selection
  | discriminant => none
  | field _ selection => selection
  | variant _ selection => some selection

/-- What a signature keeps of a slot. -/
def signature (slot : Slot) : String × String × Bool × MemberRole × Option Signature :=
  (slot.name, slot.type.notationText, slot.isDeprecated, slot.role,
    slot.selection?.map Selection.signature)

end Slot

namespace Selection

/-- The discriminant takes the place of the field. -/
def absorbs (sel : Selection) (f : SelectedField) : Bool :=
  sel.isDiscriminated && f.info.name = typenameField

/-- The slots of a selection in order. -/
def slots (sel : Selection) : List Slot :=
  (if sel.isDiscriminated then [.discriminant] else []) ++
    (sel.fields.filter (!sel.absorbs ·)).map (fun f => .field f.info f.selection) ++
    sel.variants.map (fun v => .variant v.typeName v.selection)

theorem mem_slots {sel : Selection} {slot : Slot} :
    slot ∈ sel.slots ↔ (sel.isDiscriminated = true ∧ slot = .discriminant) ∨
      (∃ f ∈ sel.fields, sel.absorbs f = false ∧ slot = .field f.info f.selection) ∨
      ∃ v ∈ sel.variants, slot = .variant v.typeName v.selection := by
  have hfirst : slot ∈ (if sel.isDiscriminated then [Slot.discriminant] else []) ↔
      sel.isDiscriminated = true ∧ slot = .discriminant := by
    split <;> simp_all
  rw [slots, List.mem_append, List.mem_append, hfirst, or_assoc]
  simp only [List.mem_map, List.mem_filter, Bool.not_eq_true', eq_comm (a := slot), and_assoc]

/-- The selection at a position below. -/
def below? : Selection → List Nat → Option Selection
  | sel, [] => some sel
  | sel, number :: position =>
    (sel.slots[number]?.bind Slot.selection?).bind (below? · position)

@[simp] theorem below?_nil (sel : Selection) : sel.below? [] = some sel := by rw [below?]

theorem below?_cons_eq_some {sel inner : Selection} {number : Nat} {position : List Nat} :
    sel.below? (number :: position) = some inner ↔
      ∃ slot sub, sel.slots[number]? = some slot ∧ slot.selection? = some sub ∧
        sub.below? position = some inner := by
  rw [below?]
  constructor
  · intro h
    obtain ⟨sub, hsub, hinner⟩ := Option.bind_eq_some_iff.1 h
    obtain ⟨slot, hslot, hsel⟩ := Option.bind_eq_some_iff.1 hsub
    exact ⟨slot, sub, hslot, hsel, hinner⟩
  · rintro ⟨slot, sub, hslot, hsub, hinner⟩
    rw [hslot, Option.bind_some, hsub, Option.bind_some, hinner]

theorem below?_append (sel : Selection) (p q : List Nat) :
    sel.below? (p ++ q) = (sel.below? p).bind (·.below? q) := by
  induction p generalizing sel with
  | nil => rw [List.nil_append, below?_nil, Option.bind_some]
  | cons number p ih =>
    rw [List.cons_append, below?, below?]
    cases sel.slots[number]?.bind Slot.selection? with
    | none => rfl
    | some sub => exact ih sub

/-- The names of the members on the way to a position. -/
def stems : Selection → List Nat → List String
  | _, [] => []
  | sel, number :: position =>
    match sel.slots[number]? with
    | none => []
    | some slot => slot.name :: slot.selection?.elim [] (stems · position)

@[simp] theorem stems_nil (sel : Selection) : sel.stems [] = [] := by rw [stems]

theorem stems_cons {sel sub : Selection} {number : Nat} {slot : Slot}
    (hslot : sel.slots[number]? = some slot) (hsub : slot.selection? = some sub)
    (position : List Nat) : sel.stems (number :: position) = slot.name :: sub.stems position := by
  rw [stems, hslot]
  simp only [hsub, Option.elim_some]

theorem stems_append {sel inner : Selection} {p : List Nat} (h : sel.below? p = some inner)
    (q : List Nat) : sel.stems (p ++ q) = sel.stems p ++ inner.stems q := by
  induction p generalizing sel with
  | nil =>
    rw [below?_nil, Option.some.injEq] at h
    rw [List.nil_append, stems_nil, List.nil_append, h]
  | cons number p ih =>
    obtain ⟨slot, sub, hslot, hsub, hinner⟩ := below?_cons_eq_some.1 h
    rw [List.cons_append, stems_cons hslot hsub, stems_cons hslot hsub, ih hinner, List.cons_append]

end Selection

/-! ## Going down -/

theorem Slot.sizeOf_lt {sel inner : Selection} {slot : Slot} (hslot : slot ∈ sel.slots)
    (hinner : slot.selection? = some inner) : sizeOf inner < sizeOf sel := by
  obtain ⟨typeName, fields, variants⟩ := sel
  rcases Selection.mem_slots.1 hslot with ⟨-, rfl⟩ | ⟨f, hf, -, rfl⟩ | ⟨v, hv, rfl⟩
  · cases hinner
  · obtain ⟨info, selection⟩ := f
    have hlt := List.sizeOf_lt_of_mem hf
    cases hinner
    simp only [SelectedField.mk.sizeOf_spec, Option.some.sizeOf_spec] at hlt
    simp only [Selection.mk.sizeOf_spec]
    omega
  · obtain ⟨type, selection⟩ := v
    have hlt := List.sizeOf_lt_of_mem hv
    cases hinner
    simp only [Variant.mk.sizeOf_spec] at hlt
    simp only [Selection.mk.sizeOf_spec]
    omega

/-- What holds of a selection if it holds of those inside its slots holds of all. -/
theorem Selection.slot_induction {motive : Selection → Prop}
    (step : ∀ sel : Selection, (∀ slot ∈ sel.slots, ∀ inner, slot.selection? = some inner →
      motive inner) → motive sel) (sel : Selection) : motive sel := by
  induction hsize : sizeOf sel using Nat.strongRecOn generalizing sel with
  | _ n ih =>
    refine step sel fun slot hslot inner hinner => ih _ ?_ inner rfl
    exact hsize ▸ Slot.sizeOf_lt hslot hinner

/-- What holds of the selections inside the slots of every selection of which it holds, holds below. -/
theorem Selection.holds_below {motive : Selection → Prop}
    (inside : ∀ sel : Selection, motive sel → ∀ slot ∈ sel.slots, ∀ inner,
      slot.selection? = some inner → motive inner) {sel inner : Selection} {position : List Nat}
    (h : motive sel) (hbelow : sel.below? position = some inner) : motive inner := by
  induction position generalizing sel with
  | nil =>
    rw [below?_nil] at hbelow
    exact Option.some.inj hbelow ▸ h
  | cons number position ih =>
    obtain ⟨slot, sub, hslot, hsub, hinner⟩ := below?_cons_eq_some.1 hbelow
    exact ih (inside sel h slot (List.mem_of_getElem? hslot) sub hsub) hinner

/-! ## Names -/

theorem Selection.WellNamed.of_slot {sel : Selection} (h : sel.WellNamed) :
    ∀ slot ∈ sel.slots, ∀ inner, slot.selection? = some inner → inner.WellNamed := by
  obtain ⟨typeName, fields, variants⟩ := sel
  obtain ⟨hfields, hvariants⟩ := h
  intro slot hslot inner hinner
  rcases Selection.mem_slots.1 hslot with ⟨-, rfl⟩ | ⟨f, hf, -, rfl⟩ | ⟨v, hv, rfl⟩
  · cases hinner
  · exact (SelectedField.allWellNamed_iff.1 hfields f hf).2.2 inner hinner
  · cases hinner
    exact (Variant.allWellNamed_iff.1 hvariants v hv).2

theorem Selection.WellNamed.type {sel : Selection} (h : sel.WellNamed) :
    ∀ slot ∈ sel.slots, slot.type.WellNamed := by
  obtain ⟨typeName, fields, variants⟩ := sel
  obtain ⟨hfields, hvariants⟩ := h
  intro slot hslot
  rcases Selection.mem_slots.1 hslot with ⟨-, rfl⟩ | ⟨f, hf, -, rfl⟩ | ⟨v, hv, rfl⟩
  · exact Selection.typenameType_wellNamed
  · exact (SelectedField.allWellNamed_iff.1 hfields f hf).2.1
  · exact (Variant.allWellNamed_iff.1 hvariants v hv).1

theorem Selection.WellNamed.name {sel : Selection} (h : sel.WellNamed) :
    ∀ slot ∈ sel.slots, Text.isAsciiName slot.name = true := by
  obtain ⟨typeName, fields, variants⟩ := sel
  obtain ⟨hfields, hvariants⟩ := h
  intro slot hslot
  rcases Selection.mem_slots.1 hslot with ⟨-, rfl⟩ | ⟨f, hf, -, rfl⟩ | ⟨v, hv, rfl⟩
  · exact (by decide : Text.isAsciiName "__typename" = true)
  · exact (SelectedField.allWellNamed_iff.1 hfields f hf).1
  · have hchars := Text.isAsciiName_chars (Variant.allWellNamed_iff.1 hvariants v hv).1
    exact Text.isAsciiName_append (by decide : Text.isAsciiName "as" = true)
      (List.all_eq_true.2 hchars.2)

theorem Selection.WellNamed.stems {sel inner : Selection} {position : List Nat} (h : sel.WellNamed)
    (hbelow : sel.below? position = some inner) :
    ∀ stem ∈ sel.stems position, Text.isAsciiName stem = true := by
  induction position generalizing sel with
  | nil => simp
  | cons number position ih =>
    obtain ⟨slot, sub, hslot, hsub, hinner⟩ := below?_cons_eq_some.1 hbelow
    have hmem := List.mem_of_getElem? hslot
    rw [stems_cons hslot hsub]
    intro stem hstem
    rcases List.mem_cons.1 hstem with rfl | hstem
    · exact h.name slot hmem
    · exact ih (h.of_slot slot hmem sub hsub) hinner stem hstem

/-! ## Signatures -/

namespace Signature

/-- A field as a signature has it. -/
abbrev FieldMark := String × String × Bool × Option Signature

/-- The fields of a signature. -/
def fieldMarks : Signature → List FieldMark
  | leaf name type deprecated rest => (name, type, deprecated, none) :: rest.fieldMarks
  | object name type deprecated selection rest =>
    (name, type, deprecated, some selection) :: rest.fieldMarks
  | variant .. | on _ => []

/-- The variants of a signature. -/
def variantMarks : Signature → List (String × Signature)
  | leaf _ _ _ rest | object _ _ _ _ rest => rest.variantMarks
  | variant typeName selection rest => (typeName, selection) :: rest.variantMarks
  | on _ => []

/-- The type of a signature. -/
def typeName? : Signature → Option String
  | leaf _ _ _ rest | object _ _ _ _ rest | variant _ _ rest => rest.typeName?
  | on typeName => typeName

end Signature

/-- A field as signatures have it. -/
def SelectedField.mark (f : SelectedField) : Signature.FieldMark :=
  (f.info.name, f.info.type.notationText, f.info.deprecation.isSome,
    f.selection.map Selection.signature)

/-- A variant as signatures have it. -/
def Variant.mark (v : Variant) : String × Signature := (v.typeName, v.selection.signature)

theorem Variant.marks_signatures (variants : List Variant) (typeName : Option String) :
    (Variant.signatures variants (.on typeName)).fieldMarks = [] ∧
      (Variant.signatures variants (.on typeName)).variantMarks = variants.map mark ∧
      (Variant.signatures variants (.on typeName)).typeName? = typeName := by
  induction variants with
  | nil => exact ⟨rfl, rfl, rfl⟩
  | cons v variants ih =>
    obtain ⟨type, selection⟩ := v
    rw [Variant.signatures, Signature.fieldMarks, Signature.variantMarks, Signature.typeName?]
    exact ⟨rfl, congrArg (_ :: ·) ih.2.1, ih.2.2⟩

theorem SelectedField.marks_signatures (fields : List SelectedField) (rest : Signature) :
    (SelectedField.signatures fields rest).fieldMarks = fields.map mark ++ rest.fieldMarks ∧
      (SelectedField.signatures fields rest).variantMarks = rest.variantMarks ∧
      (SelectedField.signatures fields rest).typeName? = rest.typeName? := by
  induction fields with
  | nil => exact ⟨rfl, rfl, rfl⟩
  | cons f fields ih =>
    obtain ⟨info, selection⟩ := f
    cases selection <;>
    · rw [SelectedField.signatures, Signature.fieldMarks, Signature.variantMarks,
        Signature.typeName?]
      exact ⟨congrArg (_ :: ·) ih.1, ih.2⟩

namespace Selection

/-- The type, the fields and the variants of a selection can be read off its signature. -/
theorem marks_signature (sel : Selection) :
    sel.signature.typeName? = sel.typeName ∧
      sel.signature.fieldMarks = sel.fields.map SelectedField.mark ∧
      sel.signature.variantMarks = sel.variants.map Variant.mark := by
  obtain ⟨typeName, fields, variants⟩ := sel
  obtain ⟨hfields, hvariants, htype⟩ :=
    SelectedField.marks_signatures fields (Variant.signatures variants (.on typeName))
  obtain ⟨hnone, hmarks, hon⟩ := Variant.marks_signatures variants typeName
  rw [signature, hfields, hvariants, htype, hnone, hmarks, hon, List.append_nil]
  exact ⟨rfl, rfl, rfl⟩

variable {sel sel' : Selection}

theorem typeName_of_signature (h : sel.signature = sel'.signature) : sel.typeName = sel'.typeName := by
  rw [← (marks_signature sel).1, h, (marks_signature sel').1]

theorem isDiscriminated_of_signature (h : sel.signature = sel'.signature) :
    sel.isDiscriminated = sel'.isDiscriminated := by
  have hmarks : sel.variants.map Variant.mark = sel'.variants.map Variant.mark := by
    rw [← (marks_signature sel).2.2, h, (marks_signature sel').2.2]
  rw [isDiscriminated, isDiscriminated, ← List.isEmpty_map (f := Variant.mark), hmarks,
    List.isEmpty_map]

/-- The slot of a field, as far as signatures have it. -/
def ofFieldMark (mark : Signature.FieldMark) :
    String × String × Bool × MemberRole × Option Signature :=
  (mark.1, mark.2.1, mark.2.2.1, .field, mark.2.2.2)

/-- The slot of a variant, as far as signatures have it. -/
def ofVariantMark (mark : String × Signature) :
    String × String × Bool × MemberRole × Option Signature :=
  (NamingPolicy.variantMember mark.1, (TypeRef.named mark.1 true).notationText, false,
    .variant mark.1, some mark.2)

/-- The slots as far as signatures have them are a function of what a signature has. -/
theorem map_signature_slots (sel : Selection) :
    sel.slots.map Slot.signature =
      (if sel.isDiscriminated then [Slot.signature .discriminant] else []) ++
        ((sel.fields.map SelectedField.mark).filter fun mark =>
          !(sel.isDiscriminated && mark.1 = typenameField)).map ofFieldMark ++
        (sel.variants.map Variant.mark).map ofVariantMark := by
  rw [slots, List.map_append, List.map_append, List.map_map, List.map_map, List.filter_map,
    List.map_map, List.map_map, apply_ite (List.map Slot.signature)]
  rfl

theorem slots_signature (h : sel.signature = sel'.signature) :
    sel.slots.map Slot.signature = sel'.slots.map Slot.signature := by
  have hfields : sel.fields.map SelectedField.mark = sel'.fields.map SelectedField.mark := by
    rw [← (marks_signature sel).2.1, h, (marks_signature sel').2.1]
  have hvariants : sel.variants.map Variant.mark = sel'.variants.map Variant.mark := by
    rw [← (marks_signature sel).2.2, h, (marks_signature sel').2.2]
  rw [map_signature_slots, map_signature_slots, hfields, hvariants, isDiscriminated_of_signature h]

theorem sizeOf_lt_of_fieldMarks {name type : String} {deprecated : Bool} {inner : Signature} :
    ∀ {signature : Signature}, (name, type, deprecated, some inner) ∈ signature.fieldMarks →
      sizeOf inner < sizeOf signature
  | .leaf _ _ _ rest, h => by
    rw [Signature.fieldMarks, List.mem_cons] at h
    have hlt : sizeOf inner < sizeOf rest := sizeOf_lt_of_fieldMarks (h.resolve_left (by simp))
    rw [Signature.leaf.sizeOf_spec]
    omega
  | .object _ _ _ selection rest, h => by
    rw [Signature.fieldMarks, List.mem_cons] at h
    rw [Signature.object.sizeOf_spec]
    rcases h with heq | h
    · cases heq
      omega
    · have hlt := sizeOf_lt_of_fieldMarks h
      omega
  | .variant _ _ _, h => by cases h
  | .on _, h => by cases h

theorem sizeOf_lt_of_variantMarks {typeName : String} {inner : Signature} :
    ∀ {signature : Signature}, (typeName, inner) ∈ signature.variantMarks →
      sizeOf inner < sizeOf signature
  | .leaf _ _ _ rest, h => by
    have hlt : sizeOf inner < sizeOf rest := sizeOf_lt_of_variantMarks h
    rw [Signature.leaf.sizeOf_spec]
    omega
  | .object _ _ _ _ rest, h => by
    have hlt : sizeOf inner < sizeOf rest := sizeOf_lt_of_variantMarks h
    rw [Signature.object.sizeOf_spec]
    omega
  | .variant _ selection rest, h => by
    rw [Signature.variantMarks, List.mem_cons] at h
    rw [Signature.variant.sizeOf_spec]
    rcases h with heq | h
    · cases heq
      omega
    · have hlt := sizeOf_lt_of_variantMarks h
      omega
  | .on _, h => by cases h

end Selection

/-- No selection has the signature of one inside it. -/
theorem Slot.sizeOf_signature_lt {sel inner : Selection} {slot : Slot} (hslot : slot ∈ sel.slots)
    (hinner : slot.selection? = some inner) : sizeOf inner.signature < sizeOf sel.signature := by
  obtain ⟨-, hfields, hvariants⟩ := sel.marks_signature
  rcases Selection.mem_slots.1 hslot with ⟨-, rfl⟩ | ⟨f, hf, -, rfl⟩ | ⟨v, hv, rfl⟩
  · cases hinner
  · have hmark := List.mem_map_of_mem (f := SelectedField.mark) hf
    rw [← hfields, SelectedField.mark, show f.selection = some inner from hinner] at hmark
    exact Selection.sizeOf_lt_of_fieldMarks hmark
  · cases hinner
    have hmark := List.mem_map_of_mem (f := Variant.mark) hv
    rw [← hvariants] at hmark
    exact Selection.sizeOf_lt_of_variantMarks hmark

end FragmentShapes
