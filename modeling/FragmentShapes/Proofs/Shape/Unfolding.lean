import FragmentShapes.Proofs.Selection.Slots
import Mathlib.Data.List.Forall2
import Mathlib.Data.List.Nodup

/-!
# Unfolding a tree of shapes

What a shape and its members show of a selection, and where the references of members lead. Following
them down a position of numbers unfolds the tree; `ShapeTree.follow` gives the shape that is reached,
as `Selection.below?` gives the selection.
-/

namespace FragmentShapes

/-! ## Rows of members and slots -/

section Rows

variable {α β γ : Type} {R : α → β → Prop} {as : List α} {bs cs : List β}

theorem rel_getElem? (h : List.Forall₂ R as bs) (i : Nat) : Option.Rel R as[i]? bs[i]? := by
  induction h generalizing i with
  | nil => exact .none
  | cons hfirst _ ih =>
    cases i with
    | zero => exact .some hfirst
    | succ i => exact ih i

/-- A row in relation to another one, seen against a third one with the same marks. -/
theorem forall₂_of_map_eq {f : β → γ} (h : List.Forall₂ R as bs) (hmap : bs.map f = cs.map f) :
    List.Forall₂ (fun a c => c ∈ cs ∧ ∃ b ∈ bs, R a b ∧ f b = f c) as cs := by
  induction h generalizing cs with
  | nil =>
    obtain rfl : cs = [] := List.map_eq_nil_iff.1 hmap.symm
    exact .nil
  | @cons a b as bs hfirst _ ih =>
    cases cs with
    | nil => cases hmap
    | cons c cs =>
      rw [List.map_cons, List.map_cons, List.cons.injEq] at hmap
      refine .cons ⟨List.mem_cons_self, b, List.mem_cons_self, hfirst, hmap.1⟩ ?_
      refine (ih hmap.2).imp ?_
      rintro _ _ ⟨hc, b', hb', hR, hf⟩
      exact ⟨List.mem_cons_of_mem _ hc, b', List.mem_cons_of_mem _ hb', hR, hf⟩

end Rows

/-! ## What shapes show -/

/-- The member shows the slot: its name and type, whether it is deprecated, what it stands for, and a
shape exactly if there is a selection inside. -/
structure Member.Renders (m : Member) (slot : Slot) : Prop where
  name : m.name = slot.name
  type : m.type = slot.type
  deprecation : m.deprecation.isSome = slot.isDeprecated
  role : m.role = slot.role
  shape : m.shape.isSome = slot.selection?.isSome

/-- A member that shows a slot shows every slot of the same signature. -/
theorem Member.Renders.of_signature {m : Member} {slot slot' : Slot} (h : m.Renders slot)
    (hslot : slot.type.WellNamed) (hslot' : slot'.type.WellNamed)
    (hsignature : slot.signature = slot'.signature) : m.Renders slot' := by
  obtain ⟨hname, htype, hdeprecated, hrole, hselection⟩ : slot.name = slot'.name ∧
      slot.type.notationText = slot'.type.notationText ∧ slot.isDeprecated = slot'.isDeprecated ∧
      slot.role = slot'.role ∧
      slot.selection?.map Selection.signature = slot'.selection?.map Selection.signature := by
    simpa only [Slot.signature, Prod.mk.injEq] using hsignature
  refine ⟨h.name.trans hname, h.type.trans (TypeRef.notationText_injective hslot hslot' htype),
    h.deprecation.trans hdeprecated, h.role.trans hrole, h.shape.trans ?_⟩
  have hsome := congrArg Option.isSome hselection
  rwa [Option.isSome_map, Option.isSome_map] at hsome

/-- The shape shows the top of a selection: its type, whether it has variants, and each of its slots. -/
structure Shape.Renders (x : Shape) (sel : Selection) : Prop where
  sourceType : x.sourceType = sel.typeName
  isDiscriminated : x.isDiscriminated = sel.isDiscriminated
  members : List.Forall₂ Member.Renders x.members sel.slots

/-- The paths of the shapes that the members refer to. -/
def Shape.references (x : Shape) : List String := x.members.filterMap (·.shape)

/-! ## Following references -/

namespace ShapeTree

/-- The shape that is reached from another one by the members of these numbers. -/
def follow (t : ShapeTree) : Shape → List Nat → Option Shape
  | x, [] => some x
  | x, number :: position =>
    ((x.members[number]?.bind (·.shape)).bind t.shape?).bind (follow t · position)

variable {t : ShapeTree}

@[simp] theorem follow_nil (x : Shape) : t.follow x [] = some x := by rw [follow]

theorem follow_cons_eq_some {x y : Shape} {number : Nat} {position : List Nat} :
    t.follow x (number :: position) = some y ↔
      ∃ m path z, x.members[number]? = some m ∧ m.shape = some path ∧ t.shape? path = some z ∧
        t.follow z position = some y := by
  rw [follow]
  constructor
  · intro h
    obtain ⟨z, hz, hy⟩ := Option.bind_eq_some_iff.1 h
    obtain ⟨path, hpath, hshape⟩ := Option.bind_eq_some_iff.1 hz
    obtain ⟨m, hm, hmshape⟩ := Option.bind_eq_some_iff.1 hpath
    exact ⟨m, path, z, hm, hmshape, hshape, hy⟩
  · rintro ⟨m, path, z, hm, hmshape, hshape, hy⟩
    rw [hm, Option.bind_some, hmshape, Option.bind_some, hshape, Option.bind_some, hy]

theorem mem_of_shape? {path : String} {x : Shape} (h : t.shape? path = some x) :
    x ∈ t.shapes ∧ x.path = path :=
  ⟨List.mem_of_find?_eq_some h, by simpa using List.find?_some h⟩

theorem exists_shape? {path : String} (h : path ∈ t.shapes.map Shape.path) :
    ∃ x, t.shape? path = some x := by
  obtain ⟨x, hx, rfl⟩ := List.mem_map.1 h
  exact Option.isSome_iff_exists.1 (List.find?_isSome.2 ⟨x, hx, by simp⟩)

/-- Where paths are distinct, a shape is the one at its path. -/
theorem shape?_of_mem (hpaths : (t.shapes.map Shape.path).Nodup) {x : Shape} (hx : x ∈ t.shapes) :
    t.shape? x.path = some x := by
  obtain ⟨y, hy⟩ := exists_shape? (List.mem_map_of_mem (f := Shape.path) hx)
  obtain ⟨hmem, hpath⟩ := mem_of_shape? hy
  rw [hy, List.inj_on_of_nodup_map hpaths hmem hx hpath]

end ShapeTree

end FragmentShapes
