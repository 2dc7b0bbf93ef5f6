import FragmentShapes.Proofs.Assembly.Ensures

/-!
# The invariant of assembly

Shapes have distinct paths and refer to earlier ones only, and each shows a selection that has the
signature registered under its path (`AssemblyState.Sound`). Building the members of a selection keeps
this and adds only shapes that these members lead to, all with smaller signatures than the selection's
own (`AssemblyState.Grows`). A shape whose members are being built is not there yet; by its larger
signature none of those below it can have taken its path.

Main statement: `ResolvedFragment.sound_of_assembleWith`.
-/

namespace FragmentShapes

/-! ## References -/

/-- The shapes that references lead to, at once or through other shapes. -/
inductive Reachable (shapes : List Shape) : List String → Shape → Prop
  | here {references : List String} {x : Shape} : x ∈ shapes → x.path ∈ references →
      Reachable shapes references x
  | through {references : List String} {x y : Shape} : y ∈ shapes → y.path ∈ references →
      Reachable shapes y.references x → Reachable shapes references x

theorem Reachable.mono {shapes shapes' : List Shape} {references references' : List String} {x : Shape}
    (h : Reachable shapes references x) (hshapes : shapes ⊆ shapes')
    (hreferences : references ⊆ references') : Reachable shapes' references' x := by
  induction h generalizing references' with
  | here hmem hpath => exact .here (hshapes hmem) (hreferences hpath)
  | through hmem hpath _ ih => exact .through (hshapes hmem) (hreferences hpath) (ih fun _ => id)

/-- The paths that members refer to. -/
def Member.references (members : List Member) : List String := members.filterMap (·.shape)

theorem Member.references_singleton (m : Member) : references [m] = m.shape.toList := by
  rw [references, List.filterMap_cons]
  cases m.shape <;> rfl

theorem Member.references_cons (m : Member) (members : List Member) :
    references (m :: members) = references [m] ++ references members := by
  rw [references, ← List.singleton_append, List.filterMap_append]
  rfl

namespace AssemblyState

/-- The paths of the shapes. -/
def paths (s : AssemblyState) : List String := s.shapes.map Shape.path

theorem paths_congr {s s' : AssemblyState} (h : s'.shapes = s.shapes) : s'.paths = s.paths :=
  congrArg (List.map Shape.path) h

theorem any_path_iff {s : AssemblyState} {path : String} :
    s.shapes.any (·.path = path) = true ↔ path ∈ s.paths := by
  simp [paths]

/-- No registration is lost. -/
def Keeps (s s' : AssemblyState) : Prop :=
  ∀ path signature, s.registry.signature? path = some signature →
    s'.registry.signature? path = some signature

theorem Keeps.trans {s₁ s₂ s₃ : AssemblyState} (h : s₁.Keeps s₂) (h' : s₂.Keeps s₃) : s₁.Keeps s₃ :=
  fun path signature hs => h' path signature (h path signature hs)

/-- There is a shape of that signature at the path. -/
def Provides (s : AssemblyState) (path : String) (signature : Signature) : Prop :=
  path ∈ s.paths ∧ s.registry.signature? path = some signature

/-- The member shows the slot, and leads to a shape for the selection inside. -/
def Shows (s : AssemblyState) (m : Member) (slot : Slot) : Prop :=
  m.Renders slot ∧ ∀ inner, slot.selection? = some inner →
    ∃ path, m.shape = some path ∧ s.Provides path inner.signature

/-- The references of members that show slots lead to shapes. -/
theorem mem_paths_of_shows {s : AssemblyState} {members : List Member} {slots : List Slot}
    (h : List.Forall₂ s.Shows members slots) : ∀ path ∈ Member.references members, path ∈ s.paths := by
  intro path hpath
  obtain ⟨m, hm, hshape⟩ := List.mem_filterMap.1 hpath
  induction h with
  | nil => cases hm
  | cons hfirst _ ih =>
    rcases List.mem_cons.1 hm with rfl | hm
    · have hsome := hfirst.1.shape
      rw [hshape, Option.isSome_some] at hsome
      obtain ⟨inner, hinner⟩ := Option.isSome_iff_exists.1 hsome.symm
      obtain ⟨path', hpath', hprovides⟩ := hfirst.2 inner hinner
      rw [hshape] at hpath'
      exact Option.some.inj hpath' ▸ hprovides.1
    · exact ih (List.mem_filterMap.2 ⟨m, hm, hshape⟩) hm

/-- What holds of the shapes at every moment; `P` is what else is claimed of a shape and the selection
that it is for. -/
structure Sound (P : Shape → Selection → Prop) (s : AssemblyState) : Prop where
  nodup : s.paths.Nodup
  shows : ∀ x ∈ s.shapes, ∃ sel, P x sel ∧ s.registry.signature? x.path = some sel.signature ∧
    List.Forall₂ s.Shows x.members sel.slots
  earlier : ∀ (i : Nat) (x : Shape), s.shapes[i]? = some x →
    ∀ path ∈ x.references, ∃ j < i, ∃ y, s.shapes[j]? = some y ∧ y.path = path

/-- What changes while members with these references are built: the shapes added are reached through
them, and the size of their signatures is bounded. -/
structure Grows (bound : Nat) (references : List String) (s s' : AssemblyState) : Prop where
  keeps : s.Keeps s'
  added : ∃ new, s'.shapes = s.shapes ++ new ∧ ∀ x ∈ new, Reachable s'.shapes references x ∧
    ∃ signature, s'.registry.signature? x.path = some signature ∧ sizeOf signature < bound

variable {P : Shape → Selection → Prop} {s s' s₁ s₂ s₃ : AssemblyState} {bound : Nat}
  {references references' : List String}

theorem Provides.mono {path : String} {signature : Signature} (h : s.Provides path signature)
    (hpaths : s.paths ⊆ s'.paths) (hkeeps : s.Keeps s') : s'.Provides path signature :=
  ⟨hpaths h.1, hkeeps _ _ h.2⟩

theorem Shows.mono {m : Member} {slot : Slot} (h : s.Shows m slot) (hpaths : s.paths ⊆ s'.paths)
    (hkeeps : s.Keeps s') : s'.Shows m slot := by
  refine ⟨h.1, fun inner hinner => ?_⟩
  obtain ⟨path, hpath, hprovides⟩ := h.2 inner hinner
  exact ⟨path, hpath, hprovides.mono hpaths hkeeps⟩

/-- A change of the registry alone. -/
theorem Sound.of_keeps (h : s.Sound P) (hshapes : s'.shapes = s.shapes) (hkeeps : s.Keeps s') :
    s'.Sound P := by
  have hpaths := paths_congr hshapes
  refine ⟨hpaths ▸ h.nodup, fun x hx => ?_, hshapes ▸ h.earlier⟩
  obtain ⟨sel, hP, hsignature, hmembers⟩ := h.shows x (hshapes ▸ hx)
  refine ⟨sel, hP, hkeeps _ _ hsignature, hmembers.imp fun _ _ hm => ?_⟩
  exact hm.mono (hpaths ▸ fun _ => id) hkeeps

/-- A new shape whose members show its selection. -/
theorem Sound.emit (h : s.Sound P) {x : Shape} {sel : Selection} (hP : P x sel)
    (hnew : x.path ∉ s.paths) (hsignature : s.registry.signature? x.path = some sel.signature)
    (hmembers : List.Forall₂ s.Shows x.members sel.slots) :
    Sound P { s with shapes := s.shapes ++ [x] } := by
  have hpaths : s.paths ⊆ paths { s with shapes := s.shapes ++ [x] } := by
    rw [paths, paths, List.map_append]
    exact List.subset_append_left _ _
  have hshows : ∀ {y : Shape} {slots : List Slot}, List.Forall₂ s.Shows y.members slots →
      List.Forall₂ (Shows { s with shapes := s.shapes ++ [x] }) y.members slots := fun hm =>
    hm.imp fun _ _ hslot => hslot.mono hpaths fun _ _ => id
  refine ⟨?_, fun y hy => ?_, fun i y hy path hpath => ?_⟩
  · rw [paths, List.map_append, List.map_singleton, List.nodup_append]
    refine ⟨h.nodup, List.nodup_singleton _, fun p hp q hq heq => hnew ?_⟩
    exact List.mem_singleton.1 hq ▸ heq ▸ hp
  · rcases List.mem_append.1 hy with hy | hy
    · obtain ⟨sel', hP', hsignature', hmembers'⟩ := h.shows y hy
      exact ⟨sel', hP', hsignature', hshows hmembers'⟩
    · cases List.mem_singleton.1 hy
      exact ⟨sel, hP, hsignature, hshows hmembers⟩
  · by_cases hi : i < s.shapes.length
    · rw [List.getElem?_append_left hi] at hy
      obtain ⟨j, hj, z, hz, hzpath⟩ := h.earlier i y hy path hpath
      exact ⟨j, hj, z, by rw [List.getElem?_append_left (Nat.lt_trans hj hi), hz], hzpath⟩
    · -- the new shape: what its members show has been emitted before it
      rw [List.getElem?_append_right (Nat.le_of_not_lt hi)] at hy
      obtain rfl : y = x := by simpa using List.mem_of_getElem? hy
      obtain ⟨z, hz, hzpath⟩ := List.mem_map.1 (mem_paths_of_shows hmembers path hpath)
      obtain ⟨j, hj, hget⟩ := List.mem_iff_getElem.1 hz
      refine ⟨j, Nat.lt_of_lt_of_le hj (Nat.le_of_not_lt hi), z, ?_, hzpath⟩
      rw [List.getElem?_append_left hj, List.getElem?_eq_getElem hj, hget]

theorem Grows.refl (s : AssemblyState) (bound : Nat) : s.Grows bound [] s :=
  ⟨fun _ _ => id, [], (List.append_nil _).symm, fun _ hx => by cases hx⟩

/-- A change of the registry alone. -/
theorem Grows.of_keeps (hshapes : s'.shapes = s.shapes) (hkeeps : s.Keeps s') :
    s.Grows bound [] s' :=
  ⟨hkeeps, [], by rw [hshapes, List.append_nil], fun _ hx => by cases hx⟩

theorem Grows.subset (h : s.Grows bound references s') : s.shapes ⊆ s'.shapes := by
  obtain ⟨new, hnew, -⟩ := h.added
  exact hnew ▸ List.subset_append_left _ _

theorem Grows.paths_subset (h : s.Grows bound references s') : s.paths ⊆ s'.paths :=
  List.map_subset _ h.subset

theorem Grows.trans (h : s₁.Grows bound references s₂) (h' : s₂.Grows bound references' s₃) :
    s₁.Grows bound (references ++ references') s₃ := by
  obtain ⟨first, hfirst, hall⟩ := h.added
  obtain ⟨second, hsecond, hall'⟩ := h'.added
  refine ⟨h.keeps.trans h'.keeps, first ++ second,
    by rw [hsecond, hfirst, List.append_assoc], fun x hx => ?_⟩
  rcases List.mem_append.1 hx with hx | hx
  · obtain ⟨hreach, signature, hsignature, hlt⟩ := hall x hx
    exact ⟨hreach.mono h'.subset (List.subset_append_left _ _), signature,
      h'.keeps _ _ hsignature, hlt⟩
  · obtain ⟨hreach, hbound⟩ := hall' x hx
    exact ⟨hreach.mono (fun _ => id) (List.subset_append_right _ _), hbound⟩

/-- A change of the registry alone at the end. -/
theorem Grows.andKeeps (h : s₁.Grows bound references s₂) (hshapes : s₃.shapes = s₂.shapes)
    (hkeeps : s₂.Keeps s₃) : s₁.Grows bound references s₃ :=
  List.append_nil references ▸ h.trans (.of_keeps hshapes hkeeps)

theorem Grows.mono_bound {bound' : Nat} (h : s.Grows bound references s') (hle : bound ≤ bound') :
    s.Grows bound' references s' := by
  obtain ⟨new, hnew, hall⟩ := h.added
  refine ⟨h.keeps, new, hnew, fun x hx => ?_⟩
  obtain ⟨hreach, signature, hsignature, hlt⟩ := hall x hx
  exact ⟨hreach, signature, hsignature, Nat.lt_of_lt_of_le hlt hle⟩

/-- A shape of the bounding size or more is new: those that were added are smaller. -/
theorem Grows.not_mem_paths (h : s.Grows bound references s') {path : String} {signature : Signature}
    (hbefore : path ∉ s.paths) (hsignature : s'.registry.signature? path = some signature)
    (hsize : bound ≤ sizeOf signature) : path ∉ s'.paths := by
  intro hpath
  obtain ⟨x, hx, rfl⟩ := List.mem_map.1 hpath
  obtain ⟨new, hnew, hall⟩ := h.added
  rcases List.mem_append.1 (hnew ▸ hx) with hx | hx
  · exact hbefore (List.mem_map_of_mem hx)
  · obtain ⟨-, τ, hτ, hlt⟩ := hall x hx
    rw [hsignature] at hτ
    cases hτ
    omega

/-- A shape behind those that its members lead to. -/
theorem Grows.emit (h : s.Grows bound references s') {x : Shape} {signature : Signature}
    (hreferences : x.references = references)
    (hsignature : s'.registry.signature? x.path = some signature) (hlt : sizeOf signature < bound) :
    s.Grows bound [x.path] { s' with shapes := s'.shapes ++ [x] } := by
  obtain ⟨new, hnew, hall⟩ := h.added
  refine ⟨h.keeps, new ++ [x], by rw [hnew, List.append_assoc], fun y hy => ?_⟩
  have hx : x ∈ s'.shapes ++ [x] := List.mem_append_right _ (List.mem_singleton_self x)
  rcases List.mem_append.1 hy with hy | hy
  · obtain ⟨hreach, hbound⟩ := hall y hy
    refine ⟨.through hx (List.mem_singleton_self _) ?_, hbound⟩
    exact hreach.mono (List.subset_append_left _ _) (hreferences ▸ fun _ => id)
  · cases List.mem_singleton.1 hy
    exact ⟨.here hx (List.mem_singleton_self _), signature, hsignature, hlt⟩

end AssemblyState

/-! ## Steps -/

namespace Assembly

open AssemblyState

variable {P : Shape → Selection → Prop} {c : Context} {s : AssemblyState}

/-- What is claimed of a shape holds of every shape that is made for the selection. -/
def Admits (c : Context) (P : Shape → Selection → Prop) (sel : Selection) : Prop :=
  ∀ parent doc l members, P (shapeAt c parent doc sel l members) sel

/-- Building the members of a selection, at whatever place, keeps the invariant. -/
def Builds (P : Shape → Selection → Prop) (sel : Selection) (build : Place → Assembly (List Member)) :
    Prop :=
  ∀ (place : Place) (s : AssemblyState), s.Sound P →
    Ensures (build place) s (fun members s' => s'.Sound P ∧
      s.Grows (sizeOf sel.signature) (Member.references members) s' ∧
      List.Forall₂ s'.Shows members sel.slots) fun _ => True

theorem ensures_provideShape {sel : Selection} {build : Place → Assembly (List Member)}
    (hP : Admits c P sel) (hbuild : Builds P sel build) {bound : Nat}
    (hsize : sizeOf sel.signature < bound) (parent : Place) (doc : String) (l : Location)
    (hs : s.Sound P) :
    Ensures (provideShape c parent doc sel build l) s (fun _ s' => s'.Sound P ∧
      s.Grows bound [l.path] s' ∧ s'.Provides l.path sel.signature) fun _ => True := by
  unfold provideShape
  rw [ensures_bind, ensures_state]
  split_ifs with hthere
  · have hpath : l.path ∈ s.paths := any_path_iff.1 hthere
    refine ensures_register (fun s' hshapes hsignature hkeeps _ => ?_) fun _ _ _ => trivial
    refine ⟨hs.of_keeps hshapes hkeeps, ⟨hkeeps, [], ?_, fun _ hx => by cases hx⟩, ?_, hsignature⟩
    · rw [hshapes, List.append_nil]
    · exact paths_congr hshapes ▸ hpath
  · have hfree : l.path ∉ s.paths := mt any_path_iff.2 hthere
    refine (hbuild l.place s hs).bind ?_
    rintro members s₁ ⟨hsound, hgrows, hmembers⟩
    rw [emitShape, ensures_bind]
    refine ensures_register (fun s₂ hshapes hsignature hkeeps _ => ?_) fun _ _ _ => trivial
    rw [ensures_emit]
    have hpaths := paths_congr hshapes
    have hgrows₂ := hgrows.andKeeps hshapes hkeeps
    -- the shapes below are smaller, so none of them has taken the path in the meantime
    have hnew : l.path ∉ s₂.paths := hgrows₂.not_mem_paths hfree hsignature (Nat.le_refl _)
    refine ⟨(hsound.of_keeps hshapes hkeeps).emit (hP parent doc l members) hnew hsignature ?_,
      (hgrows₂.mono_bound (Nat.le_of_lt hsize)).emit rfl hsignature hsize, ?_, hsignature⟩
    · exact hmembers.imp fun _ _ hm => hm.mono (hpaths ▸ fun _ => id) hkeeps
    · rw [paths, List.map_append]
      exact List.mem_append_right _ (List.mem_singleton_self _)

theorem ensures_childShape {sel : Selection} {build : Place → Assembly (List Member)}
    (hP : Admits c P sel) (hbuild : Builds P sel build) {bound : Nat}
    (hsize : sizeOf sel.signature < bound) (parent : Place) (stem doc : String) (hs : s.Sound P) :
    Ensures (childShape c parent stem doc sel build) s (fun path s' => s'.Sound P ∧
      s.Grows bound [path] s' ∧ s'.Provides path sel.signature) fun _ => True := by
  unfold childShape
  refine (ensures_locate c parent stem sel s).bind ?_
  rintro l s₁ ⟨hshapes, hregistry⟩
  -- Finding the location and relating the shapes leave alone what is registered and emitted.
  have hkeeps : s.Keeps s₁ := fun path τ hτ => hregistry ▸ hτ
  refine (ensures_provideShape hP hbuild hsize parent doc l (hs.of_keeps hshapes hkeeps)).bind ?_
  rintro - s₂ ⟨hsound, hgrows, hprovides⟩
  rw [ensures_bind]
  refine ensures_relate (fun s₃ hshapes₃ hsame => ?_) fun _ _ => trivial
  have hkeeps₃ : s₂.Keeps s₃ := fun path τ hτ => hsame path ▸ hτ
  have hlocated : s.Grows bound [l.path] s₂ := (Grows.of_keeps hshapes hkeeps).trans hgrows
  exact ⟨hsound.of_keeps hshapes₃ hkeeps₃, hlocated.andKeeps hshapes₃ hkeeps₃,
    hprovides.mono (paths_congr hshapes₃ ▸ fun _ => id) hkeeps₃⟩

/-! ## Members -/

theorem ensures_slotMember {slot : Slot} {bound : Nat}
    (hinner : ∀ inner, slot.selection? = some inner → Admits c P inner ∧
      Builds P inner (members c inner) ∧ sizeOf inner.signature < bound)
    (place : Place) (hs : s.Sound P) :
    Ensures (slotMember c place slot) s (fun m s' => s'.Sound P ∧
      s.Grows bound (Member.references [m]) s' ∧ s'.Shows m slot) fun _ => True := by
  refine .slotMember (fun hnone => ?_) (fun inner hsome doc => ?_) fun _ _ _ => trivial
  · have hshape := shape_memberOf_none c slot
    refine ⟨hs, ?_, renders_memberOf c (by rw [hshape, hnone]; rfl), fun inner h => (by cases hnone ▸ h)⟩
    rw [Member.references_singleton, hshape]
    exact .refl s bound
  · obtain ⟨hP, hbuild, hsize⟩ := hinner inner hsome
    refine (ensures_childShape hP hbuild hsize place _ doc hs).mono ?_ fun _ => id
    rintro path s' ⟨hsound, hgrows, hprovides⟩
    have hshape := shape_memberOf_some c hsome path
    refine ⟨hsound, ?_, renders_memberOf c (by rw [hshape, hsome]; rfl), fun _ h => ⟨path, hshape, ?_⟩⟩
    · rw [Member.references_singleton, hshape]
      exact hgrows
    · cases hsome.symm.trans h
      exact hprovides

theorem ensures_slotMembers {slots : List Slot} {bound : Nat}
    (hinner : ∀ slot ∈ slots, ∀ inner, slot.selection? = some inner → Admits c P inner ∧
      Builds P inner (members c inner) ∧ sizeOf inner.signature < bound)
    (place : Place) (hs : s.Sound P) :
    Ensures (slotMembers c place slots) s (fun members s' => s'.Sound P ∧
      s.Grows bound (Member.references members) s' ∧ List.Forall₂ s'.Shows members slots)
      fun _ => True := by
  induction slots generalizing s with
  | nil => exact ⟨hs, .refl s bound, .nil⟩
  | cons slot slots ih =>
    rw [slotMembers]
    refine (ensures_slotMember (hinner slot List.mem_cons_self) place hs).bind ?_
    rintro m s₁ ⟨hsound, hgrows, hshows⟩
    refine (ih (fun other hother => hinner other (List.mem_cons_of_mem _ hother)) hsound).bind ?_
    rintro more s₂ ⟨hsound₂, hgrows₂, hshows₂⟩
    -- what the first member shows stays shown while the others are built
    refine ⟨hsound₂, ?_, .cons (hshows.mono hgrows₂.paths_subset hgrows₂.keeps) hshows₂⟩
    exact Member.references_cons m more ▸ hgrows.trans hgrows₂

theorem builds_members (sel : Selection)
    (hP : ∀ position inner, position ≠ [] → sel.below? position = some inner → Admits c P inner) :
    Builds P sel (members c sel) := by
  induction sel using Selection.slot_induction with
  | step sel ih =>
    intro place s hs
    rw [members_eq]
    refine ensures_slotMembers (fun slot hslot inner hinner => ?_) place hs
    obtain ⟨number, hnumber⟩ := List.mem_iff_getElem?.1 hslot
    have hdown : ∀ position, sel.below? (number :: position) = inner.below? position := by
      intro position
      rw [Selection.below?, hnumber, Option.bind_some, hinner, Option.bind_some]
    refine ⟨hP [number] inner (by simp) (by rw [hdown, Selection.below?_nil]),
      ih slot hslot inner hinner fun position deeper _ hdeeper => ?_,
      Slot.sizeOf_signature_lt hslot hinner⟩
    exact hP (number :: position) deeper (by simp) (by rw [hdown, hdeeper])

end Assembly

/-! ## Trees -/

/-- What holds of a tree and of the state that it was taken from. -/
structure ShapeTree.Sound (P : Shape → Selection → Prop) (r : ResolvedFragment) (t : ShapeTree)
    (s : AssemblyState) : Prop where
  shapes : t.shapes = s.shapes
  state : s.Sound P
  last : ∃ front, t.shapes = front ++ [t.root]
  root : s.registry.signature? t.root.path = some r.selection.signature
  reachable : ∀ x ∈ t.shapes, x = t.root ∨ Reachable t.shapes t.root.references x

namespace Assembly

open AssemblyState

variable {P : Shape → Selection → Prop} {c : Context} {r : ResolvedFragment}

theorem ensures_assembleRoot (registry : NameRegistry Signature)
    (hP : ∀ position inner, position ≠ [] → r.selection.below? position = some inner →
      Admits c P inner)
    (hroot : ∀ name members, P (rootShape c r name members) r.selection) :
    Ensures (assembleRoot c r) { registry } (fun root s => s.Sound P ∧
      (∃ front, s.shapes = front ++ [root]) ∧
      s.registry.signature? root.path = some r.selection.signature ∧
      ∀ x ∈ s.shapes, x = root ∨ Reachable s.shapes root.references x) fun _ => True := by
  have hs : Sound P { registry } :=
    ⟨List.nodup_nil, fun _ hx => (by cases hx), fun _ _ hx => (by cases hx)⟩
  unfold assembleRoot
  rw [ensures_bind, ensures_ofNaming]
  refine ⟨fun name _ => ?_, fun _ _ => trivial⟩
  refine (builds_members r.selection hP _ _ hs).bind ?_
  rintro members s₁ ⟨hsound, hgrows, hmembers⟩
  rw [ensures_bind, emitShape, ensures_bind]
  refine ensures_register (fun s₂ hshapes hsignature hkeeps _ => ?_) fun _ _ _ => trivial
  have hpaths := paths_congr hshapes
  have hgrows₂ := hgrows.andKeeps hshapes hkeeps
  have hnew : qualify globalScope name ∉ s₂.paths :=
    hgrows₂.not_mem_paths (fun h => by cases h) hsignature (Nat.le_refl _)
  refine ⟨(hsound.of_keeps hshapes hkeeps).emit (hroot name members) hnew hsignature
    (hmembers.imp fun _ _ hm => hm.mono (hpaths ▸ fun _ => id) hkeeps), ⟨s₂.shapes, rfl⟩,
    hsignature, fun x hx => ?_⟩
  -- everything but the root was added for a member of it
  rcases List.mem_append.1 hx with hx | hx
  · obtain ⟨new, hnew, hall⟩ := hgrows₂.added
    obtain ⟨hreach, -⟩ := hall x (by rwa [hnew] at hx)
    exact .inr (hreach.mono (List.subset_append_left _ _) fun _ => id)
  · exact .inl (List.mem_singleton.1 hx)

end Assembly

namespace ResolvedFragment

variable {P : Shape → Selection → Prop} {r : ResolvedFragment} {o : AssemblyOptions}
  {registry : NameRegistry Signature} {t : ShapeTree}

/-- A tree comes from a run that ends with its root. -/
theorem exists_run (h : (r.assembleWith o registry).1 = .ok t) :
    ∃ shared s, Assembly.sharedSignatures o.policy r.selection = .ok shared ∧
      Assembly.assembleRoot (o.context r.name shared) r { registry } = (.ok t.root, s) ∧
      t.shapes = s.shapes := by
  rw [assembleWith] at h
  split at h
  · cases h
  · next shared hshared =>
    split at h
    · cases h
    · next root s heq =>
      cases h
      exact ⟨shared, s, hshared, heq, rfl⟩

theorem sound_of_run {c : Assembly.Context} {s : AssemblyState}
    (hP : ∀ position inner, position ≠ [] → r.selection.below? position = some inner →
      Assembly.Admits c P inner)
    (hroot : ∀ name members, P (Assembly.rootShape c r name members) r.selection)
    (hrun : Assembly.assembleRoot c r { registry } = (.ok t.root, s))
    (hshapes : t.shapes = s.shapes) : t.Sound P r s := by
  obtain ⟨hsound, hlast, hsignature, hreach⟩ :=
    (Assembly.ensures_assembleRoot registry hP hroot).of_eq_ok hrun
  exact ⟨hshapes, hsound, hshapes ▸ hlast, hsignature, hshapes ▸ hreach⟩

/-- Every tree is sound, whatever the policy and whatever was registered before. -/
theorem sound_of_assembleWith
    (hP : ∀ c position inner, position ≠ [] → r.selection.below? position = some inner →
      Assembly.Admits c P inner)
    (hroot : ∀ c name members, P (Assembly.rootShape c r name members) r.selection)
    (h : (r.assembleWith o registry).1 = .ok t) : ∃ s, t.Sound P r s := by
  obtain ⟨shared, s, -, hrun, hshapes⟩ := exists_run h
  exact ⟨s, sound_of_run (hP _) (hroot _) hrun hshapes⟩

theorem exists_sound (h : (r.assembleWith o registry).1 = .ok t) : ∃ s, t.Sound (fun _ _ => True) r s :=
  sound_of_assembleWith (fun _ _ _ _ _ _ _ _ _ => trivial) (fun _ _ _ => trivial) h

end ResolvedFragment

end FragmentShapes
