import FragmentShapes.Proofs.Assembly.Objects
import FragmentShapes.Proofs.Selection.Distinct
import Mathlib.Algebra.Order.BigOperators.Group.List
import Mathlib.Algebra.Order.Group.Nat

/-!
# Structures that a fragment uses more than once

How often each structure is among the objects of a selection under one name, however the name follows from
the stem and the structure. What is inside every selection of a structure comes at least as often as the
structure (`Selection.count_keyed_le`), so that inside a shared structure everything is shared
(`Selection.mem_repeated_of_slot`).
-/

namespace FragmentShapes

namespace Selection

variable {name : String → Signature → String}

/-- The objects of a selection as structures, each under the name that `name` gives to its stem. -/
def keyed (name : String → Signature → String) (sel : Selection) : List NamedSignature :=
  sel.objects.map fun o => (name o.1 o.2.2.signature, o.2.2.signature)

theorem keyed_eq (name : String → Signature → String) (sel : Selection) :
    sel.keyed name = sel.levelObjects.flatMap fun o =>
      (name o.1 o.2.2.signature, o.2.2.signature) :: o.2.2.keyed name := by
  rw [keyed, objects_eq, List.map_flatMap]
  rfl

/-- No structure is inside itself. -/
theorem not_mem_keyed (name : String → Signature → String) (bare : String) (sel : Selection) :
    (bare, sel.signature) ∉ sel.keyed name := by
  intro hmem
  obtain ⟨o, ho, hkey⟩ := List.mem_map.1 hmem
  have hsame : o.2.2.signature = sel.signature := congrArg Prod.snd hkey
  have hlt := sizeOf_lt_of_mem_objects ho
  rw [hsame] at hlt
  exact Nat.lt_irrefl _ hlt

/-- What is inside every selection of a structure comes at least as often as the structure. -/
theorem count_keyed_le (key inside : NamedSignature)
    (h : ∀ inner : Selection, inner.signature = key.2 → inside ∈ inner.keyed name)
    (sel : Selection) : (sel.keyed name).count key ≤ (sel.keyed name).count inside := by
  induction sel using level_induction with
  | step sel ih =>
    rw [keyed_eq, List.count_flatMap, List.count_flatMap]
    refine List.sum_le_sum fun o ho => ?_
    rw [Function.comp_apply, Function.comp_apply]
    by_cases hkey : (name o.1 o.2.2.signature, o.2.2.signature) = key
    · -- the structure is not inside itself, so that this is its only occurrence here
      have hinside : inside ∈ o.2.2.keyed name := h o.2.2 (congrArg Prod.snd hkey)
      have hpos := List.count_pos_iff.2 hinside
      have hle := List.count_le_count_cons (a := inside)
        (b := (name o.1 o.2.2.signature, o.2.2.signature)) (l := o.2.2.keyed name)
      rw [← hkey, List.count_cons_self, List.count_eq_zero_of_not_mem (not_mem_keyed name _ _)]
      omega
    · rw [List.count_cons_of_ne hkey]
      exact (ih o ho).trans List.count_le_count_cons

/-- What stands in a slot is inside every selection of the same structure. -/
theorem mem_keyed_of_signature {sel sel' inner : Selection} (h : sel'.signature = sel.signature)
    {slot : Slot} (hslot : slot ∈ sel.slots) (hinner : slot.selection? = some inner) :
    (name slot.name inner.signature, inner.signature) ∈ sel'.keyed name := by
  have hmem := List.mem_map_of_mem (f := Slot.signature) hslot
  rw [← slots_signature h] at hmem
  obtain ⟨slot', hslot', hsame⟩ := List.mem_map.1 hmem
  have hname : slot'.name = slot.name := congrArg (·.1) hsame
  have hselection : slot'.selection?.map signature = slot.selection?.map signature :=
    congrArg (·.2.2.2.2) hsame
  rw [hinner, Option.map_some] at hselection
  obtain ⟨inner', hinner', hsignature⟩ := Option.map_eq_some_iff.1 hselection
  obtain ⟨type, hobject⟩ := exists_mem_levelObjects hslot' hinner'
  refine List.mem_map.2 ⟨_, mem_objects.2 ⟨_, hobject, .inl rfl⟩, ?_⟩
  rw [hname, hsignature]

/-- The structures that come more than once. -/
def repeated (name : String → Signature → String) (sel : Selection) : List NamedSignature :=
  (sel.keyed name).filter fun key => 1 < (sel.keyed name).count key

theorem mem_repeated {sel : Selection} {key : NamedSignature} :
    key ∈ sel.repeated name ↔ 1 < (sel.keyed name).count key := by
  rw [repeated, List.mem_filter, decide_eq_true_eq]
  exact and_iff_right_of_imp fun h => List.count_pos_iff.1 (Nat.lt_of_succ_lt h)

/-- Inside a structure that comes more than once everything does. -/
theorem mem_repeated_of_slot {sel inner sub : Selection} {bare : String}
    (h : (bare, inner.signature) ∈ sel.repeated name) {slot : Slot} (hslot : slot ∈ inner.slots)
    (hsub : slot.selection? = some sub) :
    (name slot.name sub.signature, sub.signature) ∈ sel.repeated name :=
  mem_repeated.2 ((mem_repeated.1 h).trans_le (count_keyed_le _ _
    (fun _ hother => mem_keyed_of_signature hother hslot hsub) sel))

/-- The objects of a resolved selection are named for the types that they are on. -/
theorem typeName_of_mem_objects {c : Context} {levels : Nat} {parent : Option String}
    {nodes : List Node} : ∀ o ∈ (resolveWithin c levels parent nodes).value.objects,
      o.2.1 = o.2.2.typeName := by
  induction levels generalizing parent nodes with
  | zero => simp [resolveWithin, objects, SelectedField.objects, Variant.objects]
  | succ levels ih =>
    intro o ho
    obtain ⟨p, hp, ho⟩ := mem_objects.1 ho
    obtain ⟨⟨parent', nodes', hinner⟩, htype⟩ : (∃ parent' nodes',
        p.2.2 = (resolveWithin c levels parent' nodes').value) ∧ p.2.1 = p.2.2.typeName := by
      rcases mem_levelObjects.1 hp with ⟨f, hf, hselection, -, htype⟩ | ⟨v, hv, rfl⟩
      · obtain ⟨parent', hinner⟩ := exists_of_mem_fields_resolveLevel hf hselection
        exact ⟨⟨parent', _, hinner⟩, htype⟩
      · have hinner := (exists_of_mem_variants_resolveLevel hv).2
        refine ⟨⟨_, _, hinner⟩, ?_⟩
        dsimp only
        rw [hinner, typeName_resolveWithin]
    rcases ho with rfl | ho
    · exact htype
    · exact ih o (hinner ▸ ho)

/-! ## Names without custom ones -/

/-- The structure of a selection under the name that it has by itself where it has a stem. -/
def named (inner : Selection) (stem : String) : NamedSignature :=
  (Text.capitalize stem ++ NamingPolicy.modelSuffix, inner.signature)

/-- The objects of a selection as structures under names. -/
def namedObjects (sel : Selection) : List NamedSignature := sel.objects.map fun o => o.2.2.named o.1

/-- The structures that a selection uses more than once. -/
def sharedObjects (sel : Selection) : List NamedSignature :=
  sel.namedObjects.filter fun key => 1 < sel.namedObjects.count key

/-- Inside a shared structure everything is shared. -/
theorem mem_sharedObjects_of_slot {sel inner sub : Selection} {stem : String}
    (hshared : inner.named stem ∈ sel.sharedObjects) {slot : Slot} (hslot : slot ∈ inner.slots)
    (hsub : slot.selection? = some sub) : sub.named slot.name ∈ sel.sharedObjects := by
  have hrepeated : (Text.capitalize stem ++ NamingPolicy.modelSuffix, inner.signature) ∈
      sel.repeated fun stem _ => Text.capitalize stem ++ NamingPolicy.modelSuffix := hshared
  exact mem_repeated_of_slot hrepeated hslot hsub

end Selection

/-- The name that a policy gives by itself to a structure where it has a stem. -/
def NamingPolicy.bareOf (p : NamingPolicy) (stem : String) (signature : Signature) : String :=
  (p.assignName stem none signature.typeName?).toOption.getD ""

theorem NamingPolicy.bareOf_eq {p : NamingPolicy} {stem bare : String} {sel : Selection}
    (h : p.assignName stem none sel.typeName = .ok bare) : p.bareOf stem sel.signature = bare := by
  rw [bareOf, sel.marks_signature.1, h]
  rfl

namespace Assembly

variable {p : NamingPolicy} {sel : Selection}

theorem namedSignatures_eq (hcustom : p.custom = []) (hsel : sel.WellNamed) :
    namedSignatures p sel = .ok sel.namedObjects := by
  have hobjects := hsel.objects
  rw [namedSignatures, Selection.namedObjects]
  generalize sel.objects = objects at hobjects ⊢
  induction objects with
  | nil => rfl
  | cons o objects ih =>
    obtain ⟨stem, type, inner⟩ := o
    have hname : p.assignName stem none type =
        .ok (Text.capitalize stem ++ NamingPolicy.modelSuffix) :=
      NamingPolicy.assignName_eq_ok hcustom (hobjects _ List.mem_cons_self) (by simp)
    rw [List.mapM_cons, ih fun o ho => hobjects o (List.mem_cons_of_mem _ ho)]
    dsimp only
    rw [hname]
    rfl

theorem exists_of_mapM_cons {α β ε : Type} {f : α → Except ε β} {a : α} {as : List α} {bs : List β}
    (h : (a :: as).mapM f = .ok bs) : ∃ b rest, bs = b :: rest ∧ f a = .ok b ∧ as.mapM f = .ok rest := by
  rw [List.mapM_cons] at h
  cases hfirst : f a with
  | error e =>
    rw [hfirst] at h
    cases h
  | ok b =>
    cases hrest : as.mapM f with
    | error e =>
      rw [hfirst, hrest] at h
      cases h
    | ok rest =>
      rw [hfirst, hrest] at h
      cases h
      exact ⟨b, rest, rfl, rfl, rfl⟩

/-- Where all objects have names, these follow from stems and structures. -/
theorem eq_of_namedSignatures {all : List NamedSignature} (h : namedSignatures p sel = .ok all)
    (htyped : ∀ o ∈ sel.objects, o.2.1 = o.2.2.typeName) :
    all = sel.keyed p.bareOf ∧ ∀ o ∈ sel.objects,
      p.assignName o.1 none o.2.2.typeName = .ok (p.bareOf o.1 o.2.2.signature) := by
  rw [namedSignatures] at h
  rw [Selection.keyed]
  generalize sel.objects = objects at h htyped ⊢
  -- The first object without a name would end the run, so that each has one.
  induction objects generalizing all with
  | nil =>
    cases h
    exact ⟨rfl, by simp⟩
  | cons o objects ih =>
    obtain ⟨stem, type, inner⟩ := o
    obtain ⟨hfirst, hrest⟩ := List.forall_mem_cons.1 htyped
    obtain rfl : type = inner.typeName := hfirst
    obtain ⟨key, more, rfl, hkey, hmore⟩ := exists_of_mapM_cons h
    obtain ⟨rfl, hnames⟩ := ih hmore hrest
    dsimp only at hkey
    cases hname : p.assignName stem none inner.typeName with
    | error e =>
      rw [hname] at hkey
      cases hkey
    | ok bare =>
      rw [hname] at hkey
      cases hkey
      rw [List.map_cons, List.forall_mem_cons, NamingPolicy.bareOf_eq hname]
      exact ⟨rfl, hname, hnames⟩

/-- Only the mixed policy shares, and it shares what comes more than once. -/
theorem sharedSignatures_eq_ok {shared : List NamedSignature}
    (h : sharedSignatures p sel = .ok shared) (htyped : ∀ o ∈ sel.objects, o.2.1 = o.2.2.typeName) :
    (p.placement ≠ .mixed → shared = []) ∧ (p.placement = .mixed →
      shared = sel.repeated p.bareOf ∧ ∀ o ∈ sel.objects,
        p.assignName o.1 none o.2.2.typeName = .ok (p.bareOf o.1 o.2.2.signature)) := by
  rw [sharedSignatures] at h
  split_ifs at h with hmixed
  · refine ⟨fun hne => absurd hmixed hne, fun _ => ?_⟩
    cases hall : namedSignatures p sel with
    | error e =>
      rw [hall] at h
      cases h
    | ok all =>
      rw [hall] at h
      cases h
      obtain ⟨rfl, hnames⟩ := eq_of_namedSignatures hall htyped
      exact ⟨rfl, hnames⟩
  · cases h
    exact ⟨fun _ => rfl, fun h => absurd h hmixed⟩

theorem sharedSignatures_eq (hcustom : p.custom = []) (hmixed : p.placement = .mixed)
    (hsel : sel.WellNamed) : sharedSignatures p sel = .ok sel.sharedObjects := by
  rw [sharedSignatures, if_pos hmixed, namedSignatures_eq hcustom hsel]
  rfl

end Assembly

end FragmentShapes
