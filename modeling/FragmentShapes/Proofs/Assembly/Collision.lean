import FragmentShapes.Proofs.Assembly.Tree
import FragmentShapes.Proofs.Naming.PathName

/-!
# When names collide

Where places depend on positions alone, assembly fails exactly if two positions have one path and
different signatures (`ResolvedFragment.OfDocuments.collision_iff_clashes`). One direction follows shapes
through the finished tree, where each has the path of every position that leads to it. The other keeps
track of the registry during the run: whatever is registered belongs to some position.
-/

namespace FragmentShapes

/-- A position below the root that has a selection, with the path that its model is to have. -/
structure ResolvedFragment.ObjectAt (r : ResolvedFragment) (p : NamingPolicy) (position : List Nat)
    (path : String) (inner : Selection) : Prop where
  belowRoot : position ≠ []
  selection : r.selection.below? position = some inner
  pathName : p.pathName r.name (r.selection.stems position) = path

theorem ResolvedFragment.ObjectAt.stems_ne_nil {r : ResolvedFragment} {p : NamingPolicy}
    {position : List Nat} {path : String} {inner : Selection} (h : r.ObjectAt p position path inner) :
    r.selection.stems position ≠ [] := by
  obtain ⟨hne, hselection, -⟩ := h
  cases position with
  | nil => exact absurd rfl hne
  | cons number position =>
    obtain ⟨slot, sub, hslot, hsub, -⟩ := Selection.below?_cons_eq_some.1 hselection
    rw [Selection.stems_cons hslot hsub]
    exact List.cons_ne_nil _ _

theorem ResolvedFragment.ObjectAt.path_ne_root {r : ResolvedFragment} {p : NamingPolicy}
    {position : List Nat} {path : String} {inner : Selection} (h : r.ObjectAt p position path inner) :
    path ≠ NamingPolicy.withFragmentSuffix r.name :=
  h.pathName ▸ NamingPolicy.pathName_ne_root h.stems_ne_nil

/-- Two positions have one path and different signatures. -/
def ResolvedFragment.Clashes (r : ResolvedFragment) (p : NamingPolicy) : Prop :=
  ∃ position position' path inner inner', r.ObjectAt p position path inner ∧
    r.ObjectAt p position' path inner' ∧ inner.signature ≠ inner'.signature

/-- Two shapes want one name. -/
def AssemblyError.IsCollision (e : AssemblyError) : Prop :=
  ∃ name scope, e = .naming (.collision name scope)

namespace Assembly

/-! ## Places -/

variable {c : Context} {r : ResolvedFragment} {s : AssemblyState}

/-- The place is where the names on the way lead. -/
structure Place.IsAt (place : Place) (p : NamingPolicy) (fragment : String) (stems : List String) :
    Prop where
  path : place.path = p.pathName fragment stems
  context : p.placement = .flattened → place.context = NamingPolicy.flattenedStem fragment stems

/-- A well-named fragment is assembled with places that depend on positions alone. -/
structure Context.Positional (c : Context) (r : ResolvedFragment) : Prop where
  policy : c.policy.IsPositional
  shared : c.shared = []
  fragment : c.fragment = r.name
  name : Text.isAsciiName r.name = true
  selection : r.selection.WellNamed

theorem ensures_locate_isAt (hc : c.Positional r) {stems : List String}
    (hstems : ∀ stem ∈ stems, Text.isAsciiName stem = true) {place : Place}
    (hplace : place.IsAt c.policy r.name stems) {stem : String}
    (hstem : Text.isAsciiName stem = true) (selection : Selection) :
    Ensures (locate c place stem selection) s
      (fun l s' => s' = s ∧ l.place.IsAt c.policy r.name (stems ++ [stem])) fun _ => False := by
  obtain ⟨hcustom, hplacement⟩ := hc.policy
  unfold locate
  rw [NamingPolicy.assignName_eq_ok hcustom hstem (by simp)]
  rw [ensures_bind, ensures_ofNaming]
  refine ⟨fun bare hbare => ?_, fun _ h => by cases h⟩
  obtain rfl : Text.capitalize stem ++ NamingPolicy.modelSuffix = bare := by
    simpa [NamingPolicy.inContext] using hbare
  rw [hc.shared, ensures_bind]
  -- Nested, the path goes on behind the place; at the top, the name goes on behind the context.
  rcases hplacement with ⟨hnested, hdepth⟩ | hflattened
  · have hscope : c.policy.assignScope place.path (place.depth + 1) false = (place.path, .nested) := by
      simp [NamingPolicy.assignScope, NamingPolicy.hoists, NamingPolicy.exceedsDepth, hdepth, hnested]
    have hglobal : place.path ≠ globalScope :=
      hplace.path ▸ NamingPolicy.pathName_ne_globalScope _ _ _
    simp only [List.contains_nil, Int.natCast_add, Int.cast_ofNat_Int, hscope]
    refine ⟨rfl, ?_, fun h => by rw [hnested] at h; cases h⟩
    rw [Location.place, Location.path, qualify, if_neg hglobal, hplace.path,
      NamingPolicy.pathName_of_nested hnested, NamingPolicy.pathName_of_nested hnested,
      NamingPolicy.nestedPath_concat]
  · have hscope : c.policy.assignScope place.path (place.depth + 1) false = (globalScope, .hoisted) := by
      simp [NamingPolicy.assignScope, NamingPolicy.hoists, hflattened]
    have hcontext := NamingPolicy.isAsciiName_flattenedStem hc.name hstems
    have hname : c.policy.assignName stem (some place.context) selection.typeName =
        .ok (NamingPolicy.flattenedStem r.name (stems ++ [stem]) ++ NamingPolicy.modelSuffix) := by
      rw [hplace.context hflattened, NamingPolicy.assignName_eq_ok hcustom hstem (by simpa using hcontext),
        NamingPolicy.inContext, if_neg (Text.ne_empty_of_isAsciiName hcontext),
        NamingPolicy.flattenedStem_concat]
      simp only [String.append_assoc]
    simp only [List.contains_nil, Int.natCast_add, Int.cast_ofNat_Int, hscope]
    rw [nameShape, Bool.false_and, if_neg Bool.false_ne_true, hname]
    have hstems' : ∀ other ∈ stems ++ [stem], Text.isAsciiName other = true :=
      List.forall_mem_append.2 ⟨hstems, List.forall_mem_singleton.2 hstem⟩
    have hne := Text.ne_empty_of_isAsciiName (NamingPolicy.isAsciiName_flattenedStem hc.name hstems')
    refine ⟨rfl, ?_, fun _ => NamingPolicy.stemPart_append hne⟩
    rw [NamingPolicy.pathName_of_flattened hflattened (by simp)]
    rfl

/-! ## What is registered during a run -/

/-- The members refer to what is below these names. -/
def Addressed (p : NamingPolicy) (r : ResolvedFragment) (stems : List String)
    (members : List Member) : Prop :=
  ∀ m ∈ members, ∀ path, m.shape = some path → path = p.pathName r.name (stems ++ [m.name])

/-- Each registration belongs to a position, and each shape refers to what is below it. -/
structure Traced (p : NamingPolicy) (r : ResolvedFragment) (s : AssemblyState) : Prop where
  registered : ∀ path signature, s.registry.signature? path = some signature →
    ∃ position inner, r.ObjectAt p position path inner ∧ inner.signature = signature
  addressed : ∀ x ∈ s.shapes, ∃ stems, x.path = p.pathName r.name stems ∧
    Addressed p r stems x.members

/-- A run that keeps track of positions, and that only a clash can end. -/
def Tracks (p : NamingPolicy) (r : ResolvedFragment) {α : Type} (step : Assembly α)
    (post : α → Prop) : Prop :=
  ∀ s, Traced p r s → Ensures step s (fun value s' => Traced p r s' ∧ post value)
    fun e => e.IsCollision ∧ r.Clashes p

theorem Traced.of_sameSignatures {p : NamingPolicy} {s s' : AssemblyState} (h : Traced p r s)
    (hshapes : s'.shapes = s.shapes)
    (hregistry : ∀ path, s'.registry.signature? path = s.registry.signature? path) :
    Traced p r s' :=
  ⟨fun path signature hs => h.registered path signature (hregistry path ▸ hs),
    hshapes ▸ h.addressed⟩

/-- Registering an object where it belongs fails only on a clash. -/
theorem ensures_register_object {p : NamingPolicy} (hs : Traced p r s) {name scope : String}
    {position : List Nat} {inner : Selection}
    (hobject : r.ObjectAt p position (qualify scope name) inner)
    {post : Unit → AssemblyState → Prop}
    (hpost : ∀ s' : AssemblyState, Traced p r s' → post () s') :
    Ensures (updateRegistry (·.register name scope inner.signature)) s post
      fun e => e.IsCollision ∧ r.Clashes p := by
  refine ensures_register (fun s' hshapes _ _ honly => hpost s' ⟨fun path τ hτ => ?_, ?_⟩)
    fun τ hτ hne => ⟨⟨name, scope, rfl⟩, ?_⟩
  · rcases honly path τ hτ with hold | ⟨rfl, rfl⟩
    · exact hs.registered path τ hold
    · exact ⟨position, inner, hobject, rfl⟩
  · exact hshapes ▸ hs.addressed
  · obtain ⟨position', inner', hobject', rfl⟩ := hs.registered _ τ hτ
    exact ⟨position', position, _, inner', inner, hobject', hobject, hne⟩

/-- Where a shape goes that is built for a slot of a selection. -/
theorem objectAt_slot {p : NamingPolicy} {position : List Nat} {sel inner : Selection}
    (hsel : r.selection.below? position = some sel) {number : Nat} {slot : Slot}
    (hslot : sel.slots[number]? = some slot) (hinner : slot.selection? = some inner) :
    r.ObjectAt p (position ++ [number])
      (p.pathName r.name (r.selection.stems position ++ [slot.name])) inner := by
  have hbelow : sel.below? [number] = some inner :=
    Selection.below?_cons_eq_some.2 ⟨slot, inner, hslot, hinner, Selection.below?_nil inner⟩
  refine ⟨by simp, ?_, ?_⟩
  · rw [Selection.below?_append, hsel, Option.bind_some, hbelow]
  · rw [Selection.stems_append hsel, Selection.stems_cons hslot hinner, Selection.stems_nil]

theorem tracks_provideShape {p : NamingPolicy} {stems : List String} {l : Location}
    (hl : l.place.IsAt p r.name stems) {position : List Nat} {inner : Selection}
    (hobject : r.ObjectAt p position (p.pathName r.name stems) inner)
    {build : Place → Assembly (List Member)}
    (hbuild : Tracks p r (build l.place) (Addressed p r stems)) (parent : Place) (doc : String) :
    Tracks p r (provideShape c parent doc inner build l) fun _ => True := by
  intro s hs
  have hpath : qualify l.scope l.name = p.pathName r.name stems := hl.path
  rw [← hpath] at hobject
  unfold provideShape
  rw [ensures_bind, ensures_state]
  -- A shape that is already there is only registered once more, under the same path.
  split_ifs
  · exact ensures_register_object hs hobject fun s' hs' => ⟨hs', trivial⟩
  · refine (hbuild s hs).bind ?_
    rintro members s₁ ⟨hs₁, hmembers⟩
    rw [emitShape, ensures_bind]
    refine ensures_register_object hs₁ hobject fun s₂ hs₂ => ?_
    rw [ensures_emit]
    refine ⟨⟨hs₂.registered, fun x hx => ?_⟩, trivial⟩
    rcases List.mem_append.1 hx with hx | hx
    · exact hs₂.addressed x hx
    · cases List.mem_singleton.1 hx
      exact ⟨stems, hpath, hmembers⟩

theorem tracks_childShape (hc : c.Positional r) {position : List Nat} {sel inner : Selection}
    (hsel : r.selection.below? position = some sel) {number : Nat} {slot : Slot}
    (hslot : sel.slots[number]? = some slot) (hinner : slot.selection? = some inner)
    {place : Place} (hplace : place.IsAt c.policy r.name (r.selection.stems position))
    {build : Place → Assembly (List Member)}
    (hbuild : ∀ below : Place,
      below.IsAt c.policy r.name (r.selection.stems position ++ [slot.name]) →
        Tracks c.policy r (build below)
          (Addressed c.policy r (r.selection.stems position ++ [slot.name]))) (doc : String) :
    Tracks c.policy r (childShape c place slot.name doc inner build) fun path =>
      path = c.policy.pathName r.name (r.selection.stems position ++ [slot.name]) := by
  intro s hs
  have hstems := hc.selection.stems hsel
  have hname : Text.isAsciiName slot.name = true :=
    (Selection.holds_below (fun _ h => h.of_slot) hc.selection hsel).name slot
      (List.mem_of_getElem? hslot)
  unfold childShape
  refine ((ensures_locate_isAt hc hstems hplace hname inner).mono (fun _ _ => id) fun _ => False.elim).bind
    ?_
  rintro l s₁ ⟨rfl, hl⟩
  refine (tracks_provideShape hl (objectAt_slot hsel hslot hinner) (hbuild l.place hl) place doc s₁
    hs).bind ?_
  rintro - s₂ ⟨hs₂, -⟩
  rw [ensures_bind]
  refine ensures_relate (fun s₃ hshapes hregistry => ?_) fun hempty => ?_
  · exact ⟨hs₂.of_sameSignatures hshapes hregistry, hl.path⟩
  · have hparent : place.path ≠ "" := hplace.path ▸ NamingPolicy.pathName_ne_empty _ _ _
    have hchild : l.path ≠ "" := fun h => NamingPolicy.pathName_ne_empty _ _ _ (hl.path.symm.trans h)
    exact absurd hempty (not_or.2 ⟨hparent, hchild⟩)

/-- Members built for the slots of the selection at a position, each where its name leads. -/
theorem tracks_slotMember (hc : c.Positional r) {position : List Nat} {sel : Selection}
    (hsel : r.selection.below? position = some sel) {number : Nat} {slot : Slot}
    (hslot : sel.slots[number]? = some slot) {place : Place}
    (hplace : place.IsAt c.policy r.name (r.selection.stems position))
    (hbuild : ∀ inner, slot.selection? = some inner → ∀ below : Place,
      below.IsAt c.policy r.name (r.selection.stems position ++ [slot.name]) →
        Tracks c.policy r (members c inner below)
          (Addressed c.policy r (r.selection.stems position ++ [slot.name]))) :
    Tracks c.policy r (slotMember c place slot)
      fun m => Addressed c.policy r (r.selection.stems position) [m] := by
  intro s hs
  have htype : slot.type.WellNamed :=
    (Selection.holds_below (fun _ h => h.of_slot) hc.selection hsel).type _
      (List.mem_of_getElem? hslot)
  refine .slotMember (fun _ => ?_) (fun inner hsome doc => ?_)
    fun inner h => absurd h (ne_variant_of_wellNamed htype inner)
  · refine ⟨hs, List.forall_mem_singleton.2 fun path h => ?_⟩
    cases (shape_memberOf_none c slot).symm.trans h
  · refine (tracks_childShape hc hsel hslot hsome hplace (hbuild inner hsome) doc s hs).mono ?_ fun _ => id
    rintro path s' ⟨hs', hpath⟩
    refine ⟨hs', List.forall_mem_singleton.2 fun path' h => ?_⟩
    cases (shape_memberOf_some c hsome path).symm.trans h
    rwa [name_memberOf]

theorem tracks_slotMembers {p : NamingPolicy} {stems : List String} {place : Place}
    {slots : List Slot}
    (h : ∀ slot ∈ slots, Tracks p r (slotMember c place slot) fun m => Addressed p r stems [m]) :
    Tracks p r (slotMembers c place slots) (Addressed p r stems) := by
  induction slots with
  | nil => exact fun s hs => ⟨hs, fun _ hm => by cases hm⟩
  | cons slot slots ih =>
    intro s hs
    rw [slotMembers]
    refine (h slot List.mem_cons_self s hs).bind ?_
    rintro m s₁ ⟨hs₁, hm⟩
    refine (ih (fun other hother => h other (List.mem_cons_of_mem _ hother)) s₁ hs₁).bind ?_
    rintro more s₂ ⟨hs₂, hmore⟩
    exact ⟨hs₂, List.forall_mem_cons.2 ⟨List.forall_mem_singleton.1 hm, hmore⟩⟩

theorem tracks_members (hc : c.Positional r) {sel : Selection} {position : List Nat}
    (hsel : r.selection.below? position = some sel) {place : Place}
    (hplace : place.IsAt c.policy r.name (r.selection.stems position)) :
    Tracks c.policy r (members c sel place)
      (Addressed c.policy r (r.selection.stems position)) := by
  induction sel using Selection.slot_induction generalizing position place with
  | step sel ih =>
    rw [members_eq]
    refine tracks_slotMembers fun slot hmem => ?_
    obtain ⟨number, hslot⟩ := List.mem_iff_getElem?.1 hmem
    refine tracks_slotMember hc hsel hslot hplace fun inner hinner below hbelow => ?_
    obtain ⟨-, hselection, hname⟩ := objectAt_slot (p := c.policy) hsel hslot hinner
    have hstems : r.selection.stems (position ++ [number]) =
        r.selection.stems position ++ [slot.name] := by
      rw [Selection.stems_append hsel, Selection.stems_cons hslot hinner, Selection.stems_nil]
    rw [← hstems] at hbelow ⊢
    exact ih slot hmem inner hinner hselection hbelow

/-- Only a clash ends the run; else every shape refers to what is below it by name. -/
theorem ensures_assembleRoot_tracks (hc : c.Positional r) :
    Ensures (assembleRoot c r) { registry := .empty }
      (fun root s => root.path = NamingPolicy.withFragmentSuffix r.name ∧
        ∀ x ∈ s.shapes, ∃ stems, x.path = c.policy.pathName r.name stems ∧
          Addressed c.policy r stems x.members)
      fun e => e.IsCollision ∧ r.Clashes c.policy := by
  have hs : Traced c.policy r { registry := .empty } :=
    ⟨fun path signature h => (by cases h), fun x hx => (by cases hx)⟩
  unfold assembleRoot
  rw [NamingPolicy.rootName_eq_ok hc.name, ensures_bind, ensures_ofNaming]
  refine ⟨fun name hname => ?_, fun _ h => by cases h⟩
  obtain rfl := Except.ok.inj hname
  have hplace : Place.IsAt ⟨NamingPolicy.withFragmentSuffix r.name, r.name, 0⟩ c.policy r.name
      (r.selection.stems []) := by
    rw [Selection.stems_nil]
    exact ⟨(NamingPolicy.pathName_nil _ _).symm, fun _ => (NamingPolicy.flattenedStem_nil _).symm⟩
  refine (tracks_members hc (Selection.below?_nil _) hplace _ hs).bind ?_
  rintro members s₁ ⟨hs₁, hmembers⟩
  rw [ensures_bind, emitShape, ensures_bind]
  refine ensures_register (fun s₂ hshapes _ _ _ => ?_) fun τ hτ _ => ?_
  · refine ⟨rfl, fun x hx => ?_⟩
    rcases List.mem_append.1 hx with hx | hx
    · exact hs₁.addressed x (hshapes ▸ hx)
    · cases List.mem_singleton.1 hx
      rw [Selection.stems_nil] at hmembers
      exact ⟨[], (NamingPolicy.pathName_nil _ _).symm, hmembers⟩
  · -- the root is registered last, and no position has its path
    obtain ⟨position, inner, hobject, -⟩ := hs₁.registered _ τ hτ
    exact absurd rfl hobject.path_ne_root

end Assembly

/-! ## Paths in a finished tree -/

namespace ShapeTree

variable {P : Shape → Selection → Prop} {p : NamingPolicy} {r : ResolvedFragment} {t : ShapeTree}
  {s : AssemblyState}

/-- Each shape refers to what is below it by name. -/
def IsAddressed (t : ShapeTree) (p : NamingPolicy) (r : ResolvedFragment) : Prop :=
  ∀ x ∈ t.shapes, ∃ stems, x.path = p.pathName r.name stems ∧
    Assembly.Addressed p r stems x.members

/-- The shape that a position leads to has the path of the position. -/
theorem Sound.path_of_follow (h : t.Sound P r s) (ht : t.IsAddressed p r) {x y : Shape}
    {sel inner : Selection} {stems : List String} {position : List Nat} (hx : x ∈ t.shapes)
    (hsignature : s.registry.signature? x.path = some sel.signature)
    (hstems : x.path = p.pathName r.name stems) (hy : t.follow x position = some y)
    (hinner : sel.below? position = some inner) :
    y.path = p.pathName r.name (stems ++ sel.stems position) := by
  induction position generalizing x sel stems with
  | nil =>
    rw [follow_nil, Option.some.injEq] at hy
    rw [Selection.stems_nil, List.append_nil, ← hy, hstems]
  | cons number position ih =>
    obtain ⟨m, path, z, hm, hpath, hz, hrest⟩ := follow_cons_eq_some.1 hy
    obtain ⟨slot, sub, hslot, hsub, hbelow⟩ := Selection.below?_cons_eq_some.1 hinner
    have hstep : t.follow x [number] = some z :=
      follow_cons_eq_some.2 ⟨m, path, z, hm, hpath, hz, follow_nil z⟩
    obtain ⟨hzmem, hzsignature⟩ := h.follow_eq_some hx hsignature hstep
      (Selection.below?_cons_eq_some.2 ⟨slot, sub, hslot, hsub, Selection.below?_nil sub⟩)
    have hname : m.name = slot.name := by
      obtain ⟨sel₀, -, -, hmembers⟩ := h.members hx hsignature
      have hrel := rel_getElem? hmembers number
      rw [hm, hslot] at hrel
      cases hrel with
      | some hboth =>
        obtain ⟨-, slot₀, -, hshows, hsame⟩ := hboth
        exact hshows.1.name.trans (congrArg (·.1) hsame)
    -- the shape may have been built for other names that lead to the same path
    obtain ⟨stems', hstems', haddressed⟩ := ht x hx
    have hzpath : z.path = p.pathName r.name (stems ++ [slot.name]) := by
      rw [(mem_of_shape? hz).2, haddressed m (List.mem_of_getElem? hm) path hpath, hname]
      exact NamingPolicy.pathName_concat_congr (hstems'.symm.trans hstems) _
    rw [Selection.stems_cons hslot hsub, List.append_cons]
    exact ih hzmem hzsignature hzpath hrest hbelow

/-- Each object has a shape under its path, with its signature. -/
theorem Sound.exists_shape_of_objectAt (h : t.Sound P r s) (ht : t.IsAddressed p r)
    (hroot : t.root.path = NamingPolicy.withFragmentSuffix r.name) {position : List Nat}
    {path : String} {inner : Selection} (hobject : r.ObjectAt p position path inner) :
    ∃ x ∈ t.shapes, x.path = path ∧ s.registry.signature? path = some inner.signature := by
  obtain ⟨-, hselection, rfl⟩ := hobject
  have hrel := h.follow_rel h.root_mem h.root position
  rw [hselection] at hrel
  generalize hfollow : t.follow t.root position = shape? at hrel
  cases hrel with
  | @some x _ hboth =>
    have hpath := h.path_of_follow ht h.root_mem h.root
      (hroot.trans (NamingPolicy.pathName_nil p _).symm) hfollow hselection
    rw [List.nil_append] at hpath
    exact ⟨x, hboth.1, hpath, hpath ▸ hboth.2⟩

/-- Each shape but the root is that of an object. -/
theorem Sound.exists_objectAt (h : t.Sound P r s) (ht : t.IsAddressed p r)
    (hroot : t.root.path = NamingPolicy.withFragmentSuffix r.name) {x : Shape} (hx : x ∈ t.shapes)
    (hne : x ≠ t.root) : ∃ position inner, r.ObjectAt p position x.path inner := by
  have hreach := (h.reachable x hx).resolve_left hne
  obtain ⟨position, hfollow⟩ := exists_follow_of_reachable h.nodup hreach rfl
  have hrel := h.follow_rel h.root_mem h.root position
  rw [hfollow] at hrel
  generalize hinner : r.selection.below? position = inner? at hrel
  cases hrel with
  | @some _ inner _ =>
    have hpath := h.path_of_follow ht h.root_mem h.root
      (hroot.trans (NamingPolicy.pathName_nil p _).symm) hfollow hinner
    refine ⟨position, inner, ?_, hinner, hpath.symm⟩
    rintro rfl
    rw [follow_nil, Option.some.injEq] at hfollow
    exact hne hfollow.symm

end ShapeTree

/-! ## Collisions -/

namespace ResolvedFragment

variable {r : ResolvedFragment} {o : AssemblyOptions}

theorem OfDocuments.positional (hr : r.OfDocuments) (hp : o.policy.IsPositional) :
    (o.context r.name []).Positional r :=
  ⟨hp, rfl, rfl, hr.wellNamed.1, hr.wellNamed.2⟩

/-- What ends assembly, and what a finished tree is like. -/
theorem OfDocuments.assembleWith_positional (hr : r.OfDocuments) (hp : o.policy.IsPositional) :
    (∀ e, (r.assembleWith o .empty).1 = .error e → e.IsCollision ∧ r.Clashes o.policy) ∧
      ∀ t, (r.assembleWith o .empty).1 = .ok t →
        t.root.path = NamingPolicy.withFragmentSuffix r.name ∧ t.IsAddressed o.policy r := by
  have hshared : Assembly.sharedSignatures o.policy r.selection = .ok [] := by
    have hmixed : o.policy.placement ≠ .mixed := by
      rcases hp.2 with ⟨h, -⟩ | h <;> rw [h] <;> decide
    rw [Assembly.sharedSignatures, if_neg hmixed]
    rfl
  have hrun := Assembly.ensures_assembleRoot_tracks (hr.positional hp)
  rw [assembleWith, hshared]
  dsimp only
  split
  · next e s heq =>
    refine ⟨fun e' h => ?_, fun t h => by cases h⟩
    cases h
    exact hrun.of_eq_error heq
  · next root s heq =>
    refine ⟨fun e h => (by cases h), fun t h => ?_⟩
    cases h
    exact hrun.of_eq_ok heq

/-- A finished tree leaves no room for a clash, and has one shape for each path of an object. -/
theorem OfDocuments.shapes_of_positional (hr : r.OfDocuments) (hp : o.policy.IsPositional)
    {t : ShapeTree} (h : (r.assembleWith o .empty).1 = .ok t) :
    ¬ r.Clashes o.policy ∧ ∃ front, t.shapes = front ++ [t.root] ∧ (front.map Shape.path).Nodup ∧
      ∀ path, path ∈ front.map Shape.path ↔
        ∃ position inner, r.ObjectAt o.policy position path inner := by
  obtain ⟨hroot, haddressed⟩ := (hr.assembleWith_positional hp).2 t h
  obtain ⟨s, hsound⟩ := exists_sound h
  obtain ⟨front, hfront⟩ := hsound.last
  have hnodup := hsound.nodup
  rw [hfront, List.map_append, List.nodup_append] at hnodup
  refine ⟨?_, front, hfront, hnodup.1, fun path => ⟨fun hpath => ?_, ?_⟩⟩
  · rintro ⟨position, position', path, inner, inner', hobject, hobject', hne⟩
    obtain ⟨-, -, -, hsignature⟩ := hsound.exists_shape_of_objectAt haddressed hroot hobject
    obtain ⟨-, -, -, hsignature'⟩ := hsound.exists_shape_of_objectAt haddressed hroot hobject'
    rw [hsignature] at hsignature'
    exact hne (Option.some.inj hsignature')
  · obtain ⟨x, hx, rfl⟩ := List.mem_map.1 hpath
    refine hsound.exists_objectAt haddressed hroot (hfront ▸ List.mem_append_left _ hx) ?_
    rintro rfl
    exact hnodup.2.2 _ hpath _ (by simp) rfl
  · rintro ⟨position, inner, hobject⟩
    obtain ⟨x, hx, rfl, -⟩ := hsound.exists_shape_of_objectAt haddressed hroot hobject
    rw [hfront] at hx
    rcases List.mem_append.1 hx with hx | hx
    · exact List.mem_map_of_mem hx
    · cases List.mem_singleton.1 hx
      exact absurd hroot hobject.path_ne_root

/-- Where places depend on positions alone and nothing is registered before: assembly fails with a
collision exactly if two positions have one path and different signatures; else it gives a tree with
one shape, besides the root, for each path that a position has. -/
theorem OfDocuments.collision_iff_clashes (hr : r.OfDocuments) (hp : o.policy.IsPositional) :
    ((∃ name scope, (r.assembleWith o .empty).1 = .error (.naming (.collision name scope))) ↔
        r.Clashes o.policy) ∧
      (¬ r.Clashes o.policy → ∃ t front, (r.assembleWith o .empty).1 = .ok t ∧
        t.shapes = front ++ [t.root] ∧ (front.map Shape.path).Nodup ∧
        ∀ path, path ∈ front.map Shape.path ↔
          ∃ position inner, r.ObjectAt o.policy position path inner) := by
  have hfail := (hr.assembleWith_positional hp).1
  refine ⟨⟨?_, fun hclash => ?_⟩, fun hnone => ?_⟩
  · rintro ⟨name, scope, h⟩
    exact (hfail _ h).2
  · cases h : (r.assembleWith o .empty).1 with
    | ok t => exact absurd hclash (hr.shapes_of_positional hp h).1
    | error e =>
      obtain ⟨name, scope, rfl⟩ := (hfail e h).1
      exact ⟨name, scope, rfl⟩
  · cases h : (r.assembleWith o .empty).1 with
    | ok t =>
      obtain ⟨-, front, hshapes⟩ := hr.shapes_of_positional hp h
      exact ⟨t, front, rfl, hshapes⟩
    | error e => exact absurd (hfail e h).2 hnone

end ResolvedFragment

/-- A fragment in which an underscore makes two different ways spell one name. -/
def Fragment.twins : Fragment where
  name := "Card"
  onType := "User"
  entries :=
    [.field { name := "a" } [.field { name := "b" } [.field { name := "id" } []]],
      .field { name := "a_B" } [.field { name := "text" } []]]

theorem Fragment.twins_ofDocument : Fragment.twins.OfDocument :=
  ⟨"fragment Card on User { a { b { id } } a_B { text } }", [Fragment.twins],
    by rw [Fragment.parseDocument_ofList]; decide +kernel,
    List.mem_singleton_self _⟩

/-- The fragment as it is resolved without a schema. -/
def ResolvedFragment.twins : ResolvedFragment := Fragment.twins.resolve { schema := none } []

theorem ResolvedFragment.twins_ofDocuments : ResolvedFragment.twins.OfDocuments :=
  ⟨{ schema := none }, [], Fragment.twins, by simp, by simp, Fragment.twins_ofDocument, rfl⟩

/-- Lifted to the top, the models of both ways are named alike. -/
theorem ResolvedFragment.twins_clash : ResolvedFragment.twins.Clashes { placement := .flattened } :=
  ⟨[0, 0], [1], "Card_A_BModel", _, _, ⟨by decide, rfl, by decide +kernel⟩,
    ⟨by decide, rfl, by decide +kernel⟩, by decide +kernel⟩

theorem ResolvedFragment.collision_twins :
    NamingPolicy.IsPositional { placement := .flattened } ∧ ∃ name scope,
      (ResolvedFragment.twins.assembleWith (.ofPolicy { placement := .flattened }) .empty).1 =
        .error (.naming (.collision name scope)) := by
  have hp : NamingPolicy.IsPositional { placement := .flattened } := ⟨rfl, .inr rfl⟩
  exact ⟨hp, (twins_ofDocuments.collision_iff_clashes
    (o := .ofPolicy { placement := .flattened }) hp).1.2 twins_clash⟩

end FragmentShapes
