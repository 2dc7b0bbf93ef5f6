import FragmentShapes.Proofs.Assembly.Tree

/-!
# Deprecations in shared shapes

A shape has the deprecations of the selection that it was made for. A signature tells whether a field is
deprecated but not why, so that a position that comes to use a shape later may have other reasons than the
one that it was made for. `MadeAt` says at which position that was; every shape of a tree was made at a
position that leads to it. So no reason is lost exactly if positions that share a shape have the same ones
(`ResolvedFragment.deprecations_of_assembleWith`).
-/

namespace FragmentShapes

/-- The deprecation of the field in a slot. -/
def Slot.deprecation : Slot → Option Deprecation
  | field info _ => info.deprecation
  | _ => none

/-- The deprecations of the fields of a selection, slot by slot. -/
def Selection.deprecations (sel : Selection) : List (Option Deprecation) := sel.slots.map Slot.deprecation

/-- The deprecations of the members of a shape. -/
def Shape.deprecations (x : Shape) : List (Option Deprecation) := x.members.map (·.deprecation)

theorem Slot.isDeprecated_eq (slot : Slot) : slot.isDeprecated = slot.deprecation.isSome := by
  cases slot <;> rfl

/-! ## Where shapes are made -/

/-- From the shape at the path, which belongs to the first selection, the position leads to a shape, and
in the selection to the one that the shape was made for. -/
inductive MadeAt (shapes : List Shape) : String → Selection → List Nat → Shape → Selection → Prop
  | here {path : String} {sel : Selection} {x : Shape} : x ∈ shapes → x.path = path →
      x.deprecations = sel.deprecations → MadeAt shapes path sel [] x sel
  | through {path path' : String} {sel sub inner : Selection} {x y : Shape} {m : Member} {slot : Slot}
      {number : Nat} {position : List Nat} : y ∈ shapes → y.path = path → y.members[number]? = some m →
      m.shape = some path' → sel.slots[number]? = some slot → slot.selection? = some sub →
      MadeAt shapes path' sub position x inner → MadeAt shapes path sel (number :: position) x inner

/-- The shape was made for something in the selection, whose shape is at the path. -/
def MadeBelow (path : String) (sel : Selection) (shapes : List Shape) (x : Shape) : Prop :=
  ∃ position inner, MadeAt shapes path sel position x inner

/-- The shape was made for something in one of the slots, and the members lead to it. -/
def MadeUnder (members : List Member) (slots : List Slot) (shapes : List Shape) (x : Shape) : Prop :=
  ∃ (number : Nat) (m : Member) (path : String) (slot : Slot) (sub : Selection),
    members[number]? = some m ∧ m.shape = some path ∧ slots[number]? = some slot ∧
      slot.selection? = some sub ∧ MadeBelow path sub shapes x

section

variable {shapes shapes' : List Shape} {path : String} {sel inner : Selection} {x : Shape}
  {position : List Nat} {members : List Member} {slots : List Slot}

theorem MadeAt.mono (h : MadeAt shapes path sel position x inner) (hshapes : shapes ⊆ shapes') :
    MadeAt shapes' path sel position x inner := by
  induction h with
  | here hmem hpath hsame => exact .here (hshapes hmem) hpath hsame
  | through hmem hpath hm hshape hslot hsub _ ih =>
    exact .through (hshapes hmem) hpath hm hshape hslot hsub ih

theorem MadeBelow.mono (h : MadeBelow path sel shapes x) (hshapes : shapes ⊆ shapes') :
    MadeBelow path sel shapes' x := by
  obtain ⟨position, inner, hmade⟩ := h
  exact ⟨position, inner, hmade.mono hshapes⟩

theorem MadeUnder.mono (h : MadeUnder members slots shapes x) (hshapes : shapes ⊆ shapes') :
    MadeUnder members slots shapes' x := by
  obtain ⟨number, m, path, slot, sub, hm, hpath, hslot, hsub, hmade⟩ := h
  exact ⟨number, m, path, slot, sub, hm, hpath, hslot, hsub, hmade.mono hshapes⟩

theorem MadeUnder.cons (h : MadeUnder members slots shapes x) (m : Member) (slot : Slot) :
    MadeUnder (m :: members) (slot :: slots) shapes x := by
  obtain ⟨number, h⟩ := h
  exact ⟨number + 1, h⟩

theorem MadeUnder.head {m : Member} {slot : Slot} {sub : Selection} (hpath : m.shape = some path)
    (hsub : slot.selection? = some sub) (h : MadeBelow path sub shapes x) :
    MadeUnder (m :: members) (slot :: slots) shapes x :=
  ⟨0, m, path, slot, sub, rfl, hpath, rfl, hsub, h⟩

/-- What is made under the members of a shape is made below the shape. -/
theorem MadeUnder.below {y : Shape} (h : MadeUnder y.members sel.slots shapes x) (hy : y ∈ shapes) :
    MadeBelow y.path sel shapes x := by
  obtain ⟨number, m, path, slot, sub, hm, hpath, hslot, hsub, position, inner, hmade⟩ := h
  exact ⟨number :: position, inner, .through hy rfl hm hpath hslot hsub hmade⟩

theorem MadeAt.exists_shape (h : MadeAt shapes path sel position x inner) :
    ∃ y ∈ shapes, y.path = path := by
  cases h with
  | here hmem hpath => exact ⟨_, hmem, hpath⟩
  | through hmem hpath => exact ⟨_, hmem, hpath⟩

/-- Where paths are distinct, a shape is found at the position at which it was made. -/
theorem MadeAt.follow {t : ShapeTree} (hpaths : (t.shapes.map Shape.path).Nodup)
    (h : MadeAt t.shapes path sel position x inner) {y : Shape} (hy : t.shape? path = some y) :
    t.follow y position = some x ∧ sel.below? position = some inner ∧
      x.deprecations = inner.deprecations := by
  induction h generalizing y with
  | @here path sel x hmem hpath hsame =>
    have hx := ShapeTree.shape?_of_mem hpaths hmem
    rw [hpath, hy, Option.some.injEq] at hx
    subst hx
    exact ⟨ShapeTree.follow_nil y, Selection.below?_nil sel, hsame⟩
  | @through path path' sel sub inner x z m slot number position hmem hpath hm hshape hslot hsub hrest ih =>
    have hz := ShapeTree.shape?_of_mem hpaths hmem
    rw [hpath, hy, Option.some.injEq] at hz
    subst hz
    obtain ⟨w, hwmem, hwpath⟩ := hrest.exists_shape
    have hw : t.shape? path' = some w := hwpath ▸ ShapeTree.shape?_of_mem hpaths hwmem
    obtain ⟨hfollow, hbelow, hsame⟩ := ih hw
    exact ⟨ShapeTree.follow_cons_eq_some.2 ⟨m, path', w, hm, hshape, hw, hfollow⟩,
      Selection.below?_cons_eq_some.2 ⟨slot, sub, hslot, hsub, hbelow⟩, hsame⟩

end

/-- The shapes that come on the way from one state to the other are made as `made` says. -/
def AssemblyState.Adds (made : List Shape → Shape → Prop) (s s' : AssemblyState) : Prop :=
  ∃ new, s'.shapes = s.shapes ++ new ∧ ∀ x ∈ new, made s'.shapes x

namespace AssemblyState

variable {made : List Shape → Shape → Prop} {s s₁ s₂ : AssemblyState}

theorem Adds.of_shapes (h : s₁.shapes = s.shapes) : s.Adds made s₁ :=
  ⟨[], by rw [h, List.append_nil], nofun⟩

theorem Adds.trans (h : s.Adds made s₁) (h' : s₁.Adds made s₂)
    (hmono : ∀ x, made s₁.shapes x → made s₂.shapes x) : s.Adds made s₂ := by
  obtain ⟨new, hnew, hall⟩ := h
  obtain ⟨more, hmore, hall'⟩ := h'
  refine ⟨new ++ more, by rw [hmore, hnew, List.append_assoc], fun x hx => ?_⟩
  rcases List.mem_append.1 hx with hx | hx
  · exact hmono x (hall x hx)
  · exact hall' x hx

theorem Adds.imp {made' : List Shape → Shape → Prop} (h : s.Adds made s₁)
    (himp : ∀ x, made s₁.shapes x → made' s₁.shapes x) : s.Adds made' s₁ := by
  obtain ⟨new, hnew, hall⟩ := h
  exact ⟨new, hnew, fun x hx => himp x (hall x hx)⟩

theorem Adds.subset (h : s.Adds made s₁) : s.shapes ⊆ s₁.shapes := by
  obtain ⟨new, hnew, -⟩ := h
  rw [hnew]
  exact List.subset_append_left _ _

end AssemblyState

/-! ## Steps -/

namespace Assembly

open AssemblyState

variable {c : Context} {s : AssemblyState}

/-- Building the members of the selection gives them its deprecations, and makes what is under it. -/
def BuildsMade (sel : Selection) (build : Place → Assembly (List Member)) : Prop :=
  ∀ (place : Place) (s : AssemblyState),
    Ensures (build place) s (fun members s' => members.map (·.deprecation) = sel.deprecations ∧
      s.Adds (MadeUnder members sel.slots) s') fun _ => True

theorem ensures_emitShape_made {sel : Selection} {x : Shape} {s s₁ : AssemblyState}
    (hx : x.deprecations = sel.deprecations) (h : s.Adds (MadeUnder x.members sel.slots) s₁)
    (signature : Signature) :
    Ensures (emitShape signature x) s₁ (fun _ s' => s.Adds (MadeBelow x.path sel) s') fun _ => True := by
  rw [emitShape, ensures_bind]
  refine ensures_register (fun s₂ hshapes _ _ _ => ?_) fun _ _ _ => trivial
  rw [ensures_emit]
  have hmem : x ∈ s₂.shapes ++ [x] := List.mem_append_right _ (List.mem_singleton_self x)
  obtain ⟨new, hnew, hall⟩ := h
  refine ⟨new ++ [x], by rw [hshapes, hnew, List.append_assoc], fun y hy => ?_⟩
  rcases List.mem_append.1 hy with hy | hy
  · refine ((hall y hy).mono fun z hz => ?_).below hmem
    exact List.mem_append_left _ (hshapes ▸ hz)
  · obtain rfl := List.mem_singleton.1 hy
    exact ⟨[], sel, .here hmem rfl hx⟩

theorem ensures_provideShape_made {sel : Selection} {build : Place → Assembly (List Member)}
    (hbuild : BuildsMade sel build) (parent : Place) (doc : String) (l : Location) :
    Ensures (provideShape c parent doc sel build l) s (fun _ s' => s.Adds (MadeBelow l.path sel) s')
      fun _ => True := by
  unfold provideShape
  rw [ensures_bind, ensures_state]
  split_ifs
  · exact ensures_register (fun s' hshapes _ _ _ => .of_shapes hshapes) fun _ _ _ => trivial
  · refine (hbuild l.place s).bind ?_
    rintro members s₁ ⟨hmembers, hadds⟩
    exact ensures_emitShape_made (x := shapeAt c parent doc sel l members) hmembers hadds _

theorem ensures_childShape_made {sel : Selection} {build : Place → Assembly (List Member)}
    (hbuild : BuildsMade sel build) (parent : Place) (stem doc : String) :
    Ensures (childShape c parent stem doc sel build) s (fun path s' => s.Adds (MadeBelow path sel) s')
      fun _ => True := by
  unfold childShape
  refine (ensures_locate c parent stem sel s).bind ?_
  rintro l s₁ ⟨hshapes, -⟩
  refine (ensures_provideShape_made hbuild parent doc l).bind ?_
  rintro - s₂ ⟨new, hnew, hall⟩
  rw [ensures_bind]
  refine ensures_relate (fun s₃ hshapes₃ _ => ?_) fun _ _ => trivial
  exact ⟨new, by rw [hshapes₃, hnew, hshapes], by rw [hshapes₃]; exact hall⟩

theorem deprecation_memberOf (c : Context) (slot : Slot) (shape : Option String) :
    (memberOf c slot shape).deprecation = slot.deprecation := by
  cases slot <;> rfl

theorem ensures_slotMember_made {slot : Slot}
    (hinner : ∀ inner, slot.selection? = some inner → BuildsMade inner (members c inner))
    (place : Place) (s : AssemblyState) :
    Ensures (slotMember c place slot) s (fun m s' => m.deprecation = slot.deprecation ∧
      ∀ members slots, s.Adds (MadeUnder (m :: members) (slot :: slots)) s') fun _ => True := by
  refine .slotMember (fun _ => ⟨deprecation_memberOf c slot none, fun _ _ => .of_shapes rfl⟩)
    (fun inner hsome doc => ?_) fun _ _ _ => trivial
  refine (ensures_childShape_made (hinner inner hsome) place _ doc).mono ?_ fun _ => id
  intro path s' hadds
  have hshape := shape_memberOf_some c hsome path
  exact ⟨deprecation_memberOf c slot _, fun _ _ => hadds.imp fun x hx => .head hshape hsome hx⟩

theorem ensures_slotMembers_made {slots : List Slot}
    (hinner : ∀ slot ∈ slots, ∀ inner, slot.selection? = some inner →
      BuildsMade inner (members c inner)) (place : Place) (s : AssemblyState) :
    Ensures (slotMembers c place slots) s (fun members s' =>
      members.map (·.deprecation) = slots.map Slot.deprecation ∧ s.Adds (MadeUnder members slots) s')
      fun _ => True := by
  induction slots generalizing s with
  | nil => exact ⟨rfl, .of_shapes rfl⟩
  | cons slot slots ih =>
    obtain ⟨hfirst, hrest⟩ := List.forall_mem_cons.1 hinner
    rw [slotMembers]
    refine (ensures_slotMember_made hfirst place s).bind ?_
    rintro m s₁ ⟨hm, hadds⟩
    refine (ih hrest s₁).bind ?_
    rintro more s₂ ⟨hmore, hadds'⟩
    refine ⟨by rw [List.map_cons, List.map_cons, hm, hmore], ?_⟩
    exact (hadds more slots).trans (hadds'.imp fun x hx => hx.cons m slot) fun x hx =>
      hx.mono hadds'.subset

theorem buildsMade_members (sel : Selection) : BuildsMade sel (members c sel) := by
  induction sel using Selection.slot_induction with
  | step sel ih =>
    intro place s
    rw [members_eq]
    exact ensures_slotMembers_made ih place s

theorem ensures_assembleRoot_made (r : ResolvedFragment) (registry : NameRegistry Signature) :
    Ensures (assembleRoot c r) { registry }
      (fun root s => ∀ x ∈ s.shapes, MadeBelow root.path r.selection s.shapes x) fun _ => True := by
  unfold assembleRoot
  rw [ensures_bind, ensures_ofNaming]
  refine ⟨fun name _ => ?_, fun _ _ => trivial⟩
  refine (buildsMade_members r.selection _ _).bind ?_
  rintro members s₁ ⟨hmembers, hadds⟩
  refine (ensures_emitShape_made (x := rootShape c r name members) hmembers hadds _).bind ?_
  rintro - s₂ ⟨new, hnew, hall⟩ x hx
  rw [hnew, List.nil_append] at hx
  exact hall x hx

end Assembly

/-! ## Trees -/

/-- A shape tells which fields are deprecated in every selection of its signature. -/
theorem ShapeTree.Sound.isSome_deprecations {t : ShapeTree} {P : Shape → Selection → Prop}
    {r : ResolvedFragment} {s : AssemblyState} (h : t.Sound P r s) {x : Shape} (hx : x ∈ t.shapes)
    {sel : Selection} (hsignature : s.registry.signature? x.path = some sel.signature) :
    x.deprecations.map Option.isSome = sel.deprecations.map Option.isSome := by
  obtain ⟨sel₀, -, -, hmembers⟩ := h.members hx hsignature
  have hflags : List.Forall₂ (fun (m : Member) (slot : Slot) =>
      m.deprecation.isSome = slot.deprecation.isSome) x.members sel.slots := by
    refine hmembers.imp ?_
    rintro m slot ⟨-, slot₀, -, hshows, hsame⟩
    have hdeprecated : slot₀.isDeprecated = slot.isDeprecated := congrArg (·.2.2.1) hsame
    rw [hshows.1.deprecation, hdeprecated, slot.isDeprecated_eq]
  rw [Shape.deprecations, Selection.deprecations, List.map_map, List.map_map]
  refine List.forall₂_eq_eq_eq ▸ ?_
  rwa [List.forall₂_map_left_iff, List.forall₂_map_right_iff]

namespace ResolvedFragment

variable {r : ResolvedFragment} {o : AssemblyOptions} {registry : NameRegistry Signature} {t : ShapeTree}

/-- Every shape of a tree is found at a position for whose selection it was made. -/
theorem exists_madeAt (h : (r.assembleWith o registry).1 = .ok t) {x : Shape} (hx : x ∈ t.shapes) :
    ∃ position inner, t.follow t.root position = some x ∧ r.selection.below? position = some inner ∧
      x.deprecations = inner.deprecations := by
  obtain ⟨shared, s, -, hrun, hshapes⟩ := exists_run h
  have hmade := (Assembly.ensures_assembleRoot_made r registry).of_eq_ok hrun
  rw [← hshapes] at hmade
  obtain ⟨position, inner, hat⟩ := hmade x hx
  obtain ⟨s', hsound⟩ := exists_sound h
  exact ⟨position, inner, hat.follow hsound.nodup (ShapeTree.shape?_of_mem hsound.nodup hsound.root_mem)⟩

/-- At every position of a tree the members say which fields are deprecated. They have the reasons of the
fields at all positions exactly if positions that share a shape have the same deprecations. -/
theorem deprecations_of_assembleWith (h : (r.assembleWith o registry).1 = .ok t) :
    (∀ position x sel, t.follow t.root position = some x → r.selection.below? position = some sel →
      x.deprecations.map Option.isSome = sel.deprecations.map Option.isSome) ∧
    ((∀ position x sel, t.follow t.root position = some x → r.selection.below? position = some sel →
      x.deprecations = sel.deprecations) ↔
    ∀ position position' sel sel', r.selection.below? position = some sel →
      r.selection.below? position' = some sel' →
      t.follow t.root position = t.follow t.root position' → sel.deprecations = sel'.deprecations) := by
  obtain ⟨s, hsound⟩ := exists_sound h
  refine ⟨fun position x sel hx hsel => ?_, fun hkept position position' sel sel' hsel hsel' hsame => ?_,
    fun hagree position x sel hx hsel => ?_⟩
  · obtain ⟨hmem, hsignature⟩ := hsound.follow_eq_some hsound.root_mem hsound.root hx hsel
    exact hsound.isSome_deprecations hmem hsignature
  · have hrel := hsound.follow_rel hsound.root_mem hsound.root position
    rw [hsel] at hrel
    generalize hx : t.follow t.root position = shape? at hrel
    cases hrel with
    | some _ =>
      rw [hx] at hsame
      rw [← hkept position _ sel hx hsel, ← hkept position' _ sel' hsame.symm hsel']
  · obtain ⟨hmem, -⟩ := hsound.follow_eq_some hsound.root_mem hsound.root hx hsel
    obtain ⟨position₀, sel₀, hx₀, hsel₀, hmade⟩ := exists_madeAt h hmem
    rw [hmade]
    exact hagree position₀ position sel₀ sel hsel₀ hsel (hx₀.trans hx.symm)

end ResolvedFragment

/-! ## A fragment with two reasons -/

/-- A fragment that selects a deprecated field twice, each time for another reason. -/
def Fragment.retired : Fragment where
  name := "F"
  onType := "T"
  entries :=
    [.field { name := "a" } [.field { name := "x", deprecation := some ⟨some "one"⟩ } []],
      .field { name := "b" }
        [.field { name := "a" } [.field { name := "x", deprecation := some ⟨some "two"⟩ } []]]]

theorem Fragment.retired_ofDocument : Fragment.retired.OfDocument :=
  ⟨"fragment F on T \x7b a \x7b x @deprecated(reason: \"one\") \x7d
      b \x7b a \x7b x @deprecated(reason: \"two\") \x7d \x7d \x7d",
    [Fragment.retired], by rw [Fragment.parseDocument_ofList]; decide +kernel,
    List.mem_singleton_self _⟩

namespace ResolvedFragment

/-- The fragment as it is resolved without a schema. -/
def retired : ResolvedFragment := Fragment.retired.resolve { schema := none } []

theorem retired_ofDocuments : retired.OfDocuments :=
  ⟨{ schema := none }, [], Fragment.retired, by simp, by simp, Fragment.retired_ofDocument, rfl⟩

/-- The second use of the field is for the second reason, and its shape has the first. -/
theorem exists_follow_retired :
    ∃ t x sel, (retired.assembleWith (.ofPolicy { placement := .mixed }) .empty).1 = .ok t ∧
      t.follow t.root [1, 0] = some x ∧ retired.selection.below? [1, 0] = some sel ∧
      x.deprecations = [some ⟨some "one"⟩] ∧ sel.deprecations = [some ⟨some "two"⟩] := by
  have hmade : (retired.assembleWith (.ofPolicy { placement := .mixed }) .empty).1.toOption.bind
      (fun t => (t.follow t.root [1, 0]).map Shape.deprecations) = some [some ⟨some "one"⟩] := by
    decide +kernel
  have hresolved : (retired.selection.below? [1, 0]).map Selection.deprecations =
      some [some ⟨some "two"⟩] := by
    decide +kernel
  obtain ⟨t, ht⟩ := exists_of_isOk (by decide +kernel :
    (retired.assembleWith (.ofPolicy { placement := .mixed }) .empty).1.isOk = true)
  rw [ht] at hmade
  obtain ⟨x, hx, hreason⟩ := Option.map_eq_some_iff.1 hmade
  obtain ⟨sel, hsel, hreason'⟩ := Option.map_eq_some_iff.1 hresolved
  exact ⟨t, x, sel, ht, hx, hsel, hreason, hreason'⟩

/-- The reason of a field is not always that of its member. -/
theorem lost_reason_retired :
    ¬ ∀ r : ResolvedFragment, r.OfDocuments → ∀ (o : AssemblyOptions) (t : ShapeTree),
      (r.assembleWith o .empty).1 = .ok t → ∀ position x sel, t.follow t.root position = some x →
        r.selection.below? position = some sel → x.deprecations = sel.deprecations := by
  intro hkept
  obtain ⟨t, x, sel, ht, hx, hsel, hreason, hreason'⟩ := exists_follow_retired
  have hsame := hkept retired retired_ofDocuments _ t ht _ x sel hx hsel
  rw [hreason, hreason'] at hsame
  exact absurd hsame (by decide)

/-- Both uses are deprecated, and there are positions that share a shape for different reasons. -/
theorem deprecations_retired :
    ∃ t, (retired.assembleWith (.ofPolicy { placement := .mixed }) .empty).1 = .ok t ∧
      (∀ position x sel, t.follow t.root position = some x →
        retired.selection.below? position = some sel →
          x.deprecations.map Option.isSome = sel.deprecations.map Option.isSome) ∧
      ∃ position position' sel sel', retired.selection.below? position = some sel ∧
        retired.selection.below? position' = some sel' ∧
        t.follow t.root position = t.follow t.root position' ∧ sel.deprecations ≠ sel'.deprecations := by
  obtain ⟨t, x, sel, ht, hx, hsel, hreason, hreason'⟩ := exists_follow_retired
  obtain ⟨hflags, hreasons⟩ := deprecations_of_assembleWith ht
  refine ⟨t, ht, hflags, ?_⟩
  by_contra hagree
  push Not at hagree
  have hsame := hreasons.2 hagree _ x sel hx hsel
  rw [hreason, hreason'] at hsame
  exact absurd hsame (by decide)

end ResolvedFragment

end FragmentShapes
