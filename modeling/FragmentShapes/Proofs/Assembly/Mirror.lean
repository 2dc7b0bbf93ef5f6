import FragmentShapes.Proofs.Assembly.Tree

/-!
# The registry behind a tree

Assembly registers a shape when it is emitted, so that a registry that was empty lists the shapes in their
order (`AssemblyState.Mirrored`). Each reference is recorded when its shape has been provided, while the
shape that refers to it is not there yet: until this one is emitted its path collects its references, and
no path of a shape that is there collects any more (`AssemblyState.Records`). That a shape below has taken
the path in the meantime is excluded by its smaller signature.

Main statement: `ResolvedFragment.mirrors_of_assembleWith`.
-/

namespace FragmentShapes

namespace NameRegistry

variable {σ : Type}

/-- The names that are registered, each with its scope, in order. -/
def places (r : NameRegistry σ) : List (String × String) :=
  r.registrations.map fun g => (g.name, g.scope)

theorem paths_eq (r : NameRegistry σ) : r.paths = r.places.map fun place => qualify place.2 place.1 := by
  rw [places, List.map_map]
  rfl

theorem namesIn_eq (r : NameRegistry σ) (scope : String) :
    r.namesIn scope = (r.places.filter (·.2 = scope)).map Prod.fst := by
  rw [places, List.filter_map, List.map_map]
  rfl

theorem get?_eq_none_iff {r : NameRegistry σ} {name scope : String} :
    r.get? name scope = none ↔ qualify scope name ∉ r.paths := by
  rw [get?, atPath?, List.find?_eq_none]
  simp [paths]

end NameRegistry

namespace AssemblyState

/-! ## Invariants -/

variable {s s' s₁ s₂ s₃ : AssemblyState} {path : String} {references references' : List String}

/-- What is registered is what has been emitted, in the same order. -/
def Mirrored (s : AssemblyState) : Prop := s.registry.places = s.shapes.map fun x => (x.name, x.scope)

theorem Mirrored.paths_eq (h : s.Mirrored) : s.registry.paths = s.paths := by
  rw [s.registry.paths_eq, h, List.map_map]
  rfl

/-- A shape is registered under its own name and scope. -/
theorem Mirrored.get?_eq_some (h : s.Mirrored) (hnodup : s.paths.Nodup) {x : Shape}
    (hx : x ∈ s.shapes) {signature : Signature}
    (hsignature : s.registry.signature? x.path = some signature) :
    s.registry.get? x.name x.scope = some ⟨x.name, x.scope, signature⟩ := by
  obtain ⟨⟨name, scope, signature'⟩, hg, hplace⟩ := List.mem_map.1 (h ▸ List.mem_map_of_mem hx)
  obtain ⟨rfl, rfl⟩ := Prod.mk.inj hplace
  have hget := NameRegistry.get?_of_mem (h.paths_eq ▸ hnodup) hg
  have hsame : s.registry.signature? x.path = some signature' := congrArg (Option.map _) hget
  rw [hget, Option.some.inj (hsignature.symm.trans hsame)]

/-- What is recorded while members with these references are built for a shape at the path, which is not
there yet. -/
structure Records (path : String) (references : List String) (s s' : AssemblyState) : Prop where
  /-- Nothing is recorded of shapes that were there, and of paths at which there are none yet. -/
  kept : ∀ other, other ≠ path → other ∈ s.paths ∨ other ∉ s'.paths →
    s'.registry.children other = s.registry.children other
  /-- All references of a shape that is made are recorded. -/
  made : ∀ x ∈ s'.shapes, x.path ≠ path → x.path ∉ s.paths → s.registry.children x.path = [] →
    s'.registry.children x.path = x.references.eraseDups
  own : path ∉ s'.paths → ∀ before : List String, s.registry.children path = before.eraseDups →
    s'.registry.children path = (before ++ references).eraseDups

/-- What is recorded while a shape is provided. -/
structure Settles (s s' : AssemblyState) : Prop where
  kept : ∀ other, other ∈ s.paths ∨ other ∉ s'.paths →
    s'.registry.children other = s.registry.children other
  made : ∀ x ∈ s'.shapes, x.path ∉ s.paths → s.registry.children x.path = [] →
    s'.registry.children x.path = x.references.eraseDups

theorem Records.refl (path : String) (s : AssemblyState) : Records path [] s s where
  kept _ _ _ := rfl
  made _ hx _ hnot _ := absurd (List.mem_map_of_mem hx) hnot
  own _ before hbefore := by rw [hbefore, List.append_nil]

theorem Records.trans (h : Records path references s₁ s₂) (h' : Records path references' s₂ s₃)
    (hpaths : s₁.paths ⊆ s₂.paths) (hshapes : s₂.shapes ⊆ s₃.shapes) (hnodup : s₃.paths.Nodup) :
    Records path (references ++ references') s₁ s₃ := by
  have hpaths' : s₂.paths ⊆ s₃.paths := List.map_subset _ hshapes
  refine ⟨fun other hne hother => ?_, fun x hx hne hnew hnone => ?_, fun hnot before hbefore => ?_⟩
  · rw [h'.kept other hne (hother.imp_left fun hthere => hpaths hthere),
      h.kept other hne (hother.imp_right fun hnot hthere => hnot (hpaths' hthere))]
  · by_cases hthere : x.path ∈ s₂.paths
    · -- made in the first part: it is the only shape of its path also in the end
      obtain ⟨y, hy, hyx⟩ := List.mem_map.1 hthere
      obtain rfl : y = x := List.inj_on_of_nodup_map hnodup (hshapes hy) hx hyx
      rw [h'.kept _ hne (.inl hthere), h.made y hy hne hnew hnone]
    · refine h'.made x hx hne hthere ?_
      rw [h.kept _ hne (.inr hthere), hnone]
  · have hnot₂ : path ∉ s₂.paths := fun hthere => hnot (hpaths' hthere)
    rw [h'.own hnot _ (h.own hnot₂ before hbefore), List.append_assoc]

/-- A child is recorded behind the references that its parent has so far. -/
theorem Settles.relate (h : s.Settles s') {parent child : String} {registry : NameRegistry Signature}
    (hrelate : s'.registry.relate parent child = .ok registry) :
    Records parent [child] s { s' with registry } := by
  have hchildren := NameRegistry.children_of_relate hrelate
  have hother : ∀ other, other ≠ parent → registry.children other = s'.registry.children other := by
    intro other hne
    rw [hchildren, Function.update_of_ne hne]
  refine ⟨fun other hne hthere => ?_, fun x hx hne hnew hnone => ?_, fun hnot before hbefore => ?_⟩
  · exact (hother other hne).trans (h.kept other hthere)
  · exact (hother _ hne).trans (h.made x hx hnew hnone)
  · rw [hchildren, Function.update_self, h.kept parent (.inr hnot), hbefore,
      KeyedList.eraseDups_concat]
    simp only [List.mem_eraseDups]

/-- With its own shape behind them, the references of a path are those of a shape. -/
theorem Records.emit {x : Shape} {registry : NameRegistry Signature}
    (h : Records x.path x.references s s') (hnew : x.path ∉ s'.paths) (hbefore : x.path ∉ s.paths)
    (hregistry : registry.relations = s'.registry.relations) :
    s.Settles { s' with registry, shapes := s'.shapes ++ [x] } := by
  have hchildren : registry.children = s'.registry.children := by
    rw [NameRegistry.children_eq_valuesOf, hregistry]
    rfl
  have hpaths : paths { s' with registry, shapes := s'.shapes ++ [x] } = s'.paths ++ [x.path] := by
    rw [paths, List.map_append]
    rfl
  refine ⟨fun other hother => ?_, fun y hy hynew hnone => ?_⟩
  · rw [hpaths, List.mem_append, not_or, List.mem_singleton] at hother
    have hne : other ≠ x.path := hother.elim (fun hthere heq => hbefore (heq ▸ hthere)) (·.2)
    exact (congrFun hchildren other).trans (h.kept other hne (hother.imp_right (·.1)))
  · refine (congrFun hchildren _).trans ?_
    rcases List.mem_append.1 hy with hy | hy
    · have hne : y.path ≠ x.path := fun heq => hnew (heq ▸ List.mem_map_of_mem hy)
      exact h.made y hy hne hynew hnone
    · cases List.mem_singleton.1 hy
      exact h.own hnew [] hnone

/-- Registering a shape that is there changes nothing. -/
theorem Mirrored.register_there (h : s.Mirrored) {name scope : String} {signature : Signature}
    {registry : NameRegistry Signature} (hthere : qualify scope name ∈ s.paths)
    (hregister : s.registry.register name scope signature = .ok registry) :
    registry = s.registry := by
  obtain ⟨-, hsame⟩ | ⟨hnone, -⟩ := NameRegistry.register_cases hregister
  · exact hsame
  · exact absurd (h.paths_eq ▸ hthere) (NameRegistry.get?_eq_none_iff.1 hnone)

/-- A new shape is registered behind the others. -/
theorem Mirrored.emit (h : s.Mirrored) {x : Shape} {signature : Signature}
    {registry : NameRegistry Signature} (hnew : x.path ∉ s.paths)
    (hregister : s.registry.register x.name x.scope signature = .ok registry) :
    Mirrored { s with registry, shapes := s.shapes ++ [x] } := by
  obtain ⟨⟨existing, hexisting, -⟩, -⟩ | ⟨-, rfl⟩ := NameRegistry.register_cases hregister
  · have hnone := NameRegistry.get?_eq_none_iff.2 (h.paths_eq ▸ hnew)
    cases hnone.symm.trans hexisting
  · rw [Mirrored, NameRegistry.places, List.map_append, List.map_append]
    exact congrArg (· ++ _) h

end AssemblyState

/-! ## Steps -/

namespace Assembly

open AssemblyState

variable {c : Context} {s : AssemblyState}

/-- What every state of assembly is, whatever the shapes are for. -/
abbrev IsSound (s : AssemblyState) : Prop := s.Sound fun _ _ => True

theorem builds_all (c : Context) (sel : Selection) : Builds (fun _ _ => True) sel (members c sel) :=
  builds_members sel fun _ _ _ _ _ _ _ _ => trivial

/-- Building members, at whatever place, registers the shapes that are made and records all references. -/
def RecordsAll (build : Place → Assembly (List Member)) : Prop :=
  ∀ (place : Place) (s : AssemblyState), IsSound s → s.Mirrored →
    Ensures (build place) s (fun members s' => s'.Mirrored ∧
      Records place.path (Member.references members) s s') fun _ => True

/-- A shape is emitted behind those that its members refer to. -/
theorem ensures_emitShape {s₀ : AssemblyState} {signature : Signature} {x : Shape}
    (hs : s.Mirrored) (hgrows : s₀.Grows (sizeOf signature) x.references s)
    (hrecords : Records x.path x.references s₀ s) (hfree : x.path ∉ s₀.paths) :
    Ensures (emitShape signature x) s (fun _ s' => s'.Mirrored ∧ s₀.Settles s') fun _ => True := by
  rw [emitShape, ensures_bind]
  refine ensures_updateRegistry.2 ⟨fun registry hregister => ?_, fun _ _ => trivial⟩
  rw [ensures_emit]
  obtain ⟨hsignature, hkeeps, -⟩ := NameRegistry.register_eq_ok hregister
  have hgrows' : s₀.Grows (sizeOf signature) x.references { s with registry } :=
    hgrows.andKeeps rfl hkeeps
  have hnew : x.path ∉ s.paths := hgrows'.not_mem_paths hfree hsignature (Nat.le_refl _)
  exact ⟨hs.emit hnew hregister,
    hrecords.emit hnew hfree (NameRegistry.relations_of_register hregister)⟩

theorem ensures_provideShape_settles {sel : Selection} (hall : RecordsAll (members c sel))
    (parent : Place) (doc : String) (l : Location) (hs : IsSound s) (hmirrored : s.Mirrored) :
    Ensures (provideShape c parent doc sel (members c sel) l) s
      (fun _ s' => s'.Mirrored ∧ s.Settles s') fun _ => True := by
  unfold provideShape
  rw [ensures_bind, ensures_state]
  split_ifs with hthere
  · refine ensures_updateRegistry.2 ⟨fun registry hregister => ?_, fun _ _ => trivial⟩
    obtain rfl := hmirrored.register_there (any_path_iff.1 hthere) hregister
    exact ⟨hmirrored, fun _ _ => rfl, fun x hx hnew _ => absurd (List.mem_map_of_mem hx) hnew⟩
  · refine ((builds_all c sel l.place s hs).and (hall l.place s hs hmirrored)).bind ?_
    rintro members s₁ ⟨⟨-, hgrows, -⟩, hmirrored₁, hrecords⟩
    exact ensures_emitShape hmirrored₁ hgrows hrecords (mt any_path_iff.2 hthere)

theorem ensures_childShape_records {sel : Selection} (hall : RecordsAll (members c sel))
    (parent : Place) (stem doc : String) (hs : IsSound s) (hmirrored : s.Mirrored) :
    Ensures (childShape c parent stem doc sel (members c sel)) s
      (fun path s' => s'.Mirrored ∧ Records parent.path [path] s s') fun _ => True := by
  unfold childShape
  refine (ensures_locate c parent stem sel s).bind ?_
  rintro l s₁ hsame
  obtain ⟨sharedNames, rfl⟩ := hsame.exists_eq
  have hs₁ : IsSound { s with sharedNames } := hs.of_keeps rfl fun _ _ => id
  refine (ensures_provideShape_settles hall parent doc l hs₁ hmirrored).bind ?_
  rintro - s₂ ⟨hmirrored₂, hsettles⟩
  rw [ensures_bind]
  refine ensures_updateRegistry.2 ⟨fun registry hrelate => ?_, fun _ _ => trivial⟩
  have hsame₂ := NameRegistry.registrations_of_relate hrelate
  refine ⟨?_, (show s.Settles s₂ from ⟨hsettles.kept, hsettles.made⟩).relate hrelate⟩
  exact (congrArg (List.map _) hsame₂).trans hmirrored₂

/-! ## Members -/

theorem ensures_slotMember_records {slot : Slot}
    (hall : ∀ inner, slot.selection? = some inner → RecordsAll (members c inner))
    (place : Place) (hs : IsSound s) (hmirrored : s.Mirrored) :
    Ensures (slotMember c place slot) s (fun m s' => s'.Mirrored ∧
      Records place.path (Member.references [m]) s s') fun _ => True := by
  refine .slotMember (fun _ => ?_) (fun inner hsome doc => ?_) fun _ _ _ => trivial
  · rw [Member.references_singleton, shape_memberOf_none]
    exact ⟨hmirrored, .refl _ s⟩
  · refine (ensures_childShape_records (hall inner hsome) place _ doc hs hmirrored).mono ?_ fun _ => id
    intro path s' hpost
    rw [Member.references_singleton, shape_memberOf_some c hsome]
    exact hpost

theorem ensures_slotMembers_records (bound : Nat) {slots : List Slot}
    (hinner : ∀ slot ∈ slots, ∀ inner, slot.selection? = some inner →
      RecordsAll (members c inner) ∧ sizeOf inner.signature < bound)
    (place : Place) (hs : IsSound s) (hmirrored : s.Mirrored) :
    Ensures (slotMembers c place slots) s (fun members s' => s'.Mirrored ∧
      Records place.path (Member.references members) s s') fun _ => True := by
  have hbuilds : ∀ slot ∈ slots, ∀ inner, slot.selection? = some inner →
      Admits c (fun _ _ => True) inner ∧ Builds (fun _ _ => True) inner (members c inner) ∧
        sizeOf inner.signature < bound := fun slot hslot inner h =>
    ⟨fun _ _ _ _ => trivial, builds_all c inner, (hinner slot hslot inner h).2⟩
  induction slots generalizing s with
  | nil => exact ⟨hmirrored, .refl _ s⟩
  | cons slot slots ih =>
    obtain ⟨hall, hrest⟩ := List.forall_mem_cons.1 hinner
    obtain ⟨hbuild, hbuilds⟩ := List.forall_mem_cons.1 hbuilds
    rw [slotMembers]
    -- Soundness of the shapes is known already and only carried along, to keep their paths apart.
    refine ((ensures_slotMember hbuild place hs).and
      (ensures_slotMember_records (fun inner h => (hall inner h).1) place hs hmirrored)).bind ?_
    rintro m s₁ ⟨⟨hs₁, hgrows, -⟩, hmirrored₁, hrecords⟩
    refine ((ensures_slotMembers hbuilds place hs₁).and (ih hrest hs₁ hmirrored₁ hbuilds)).bind ?_
    rintro more s₂ ⟨⟨hs₂, hgrows₂, -⟩, hmirrored₂, hrecords₂⟩
    have hboth := hrecords.trans hrecords₂ hgrows.paths_subset hgrows₂.subset hs₂.nodup
    exact ⟨hmirrored₂, Member.references_cons m more ▸ hboth⟩

theorem recordsAll_members (c : Context) (sel : Selection) : RecordsAll (members c sel) := by
  induction sel using Selection.slot_induction with
  | step sel ih =>
    intro place s hs hmirrored
    rw [members_eq]
    refine ensures_slotMembers_records (sizeOf sel.signature) (fun slot hslot inner hinner => ?_)
      place hs hmirrored
    exact ⟨ih slot hslot inner hinner, Slot.sizeOf_signature_lt hslot hinner⟩

/-- The shapes of a fragment are those that an empty registry has behind them, with their references. -/
theorem ensures_assembleRoot_mirrored (c : Context) (r : ResolvedFragment) :
    Ensures (assembleRoot c r) { registry := .empty } (fun _ s => s.Mirrored ∧
      ∀ x ∈ s.shapes, s.registry.children x.path = x.references.eraseDups) fun _ => True := by
  have hs : IsSound { registry := .empty } :=
    ⟨List.nodup_nil, fun _ hx => (by cases hx), fun _ _ hx => (by cases hx)⟩
  unfold assembleRoot
  rw [ensures_bind, ensures_ofNaming]
  refine ⟨fun name _ => ?_, fun _ _ => trivial⟩
  refine ((builds_all c r.selection _ _ hs).and (recordsAll_members c r.selection _ _ hs rfl)).bind ?_
  rintro members s₁ ⟨⟨-, hgrows, -⟩, hmirrored, hrecords⟩
  have hpath : (rootShape c r name members).path = name := by
    rw [Shape.path, rootShape, qualify, if_pos rfl]
  refine (ensures_emitShape (x := rootShape c r name members) hmirrored hgrows (hpath ▸ hrecords)
    List.not_mem_nil).bind ?_
  rintro - s₂ ⟨hmirrored₂, hsettles⟩
  exact ⟨hmirrored₂, fun x hx => hsettles.made x hx List.not_mem_nil rfl⟩

end Assembly

/-! ## Trees -/

/-- The shape is built from the selection, which is the fragment's own or one below it. -/
inductive ResolvedFragment.Builds (r : ResolvedFragment) : Shape → Selection → Prop
  | root (c : Assembly.Context) (name : String) (members : List Member) :
      r.Builds (Assembly.rootShape c r name members) r.selection
  | below {position : List Nat} {inner : Selection} (c : Assembly.Context) (parent : Assembly.Place)
      (doc : String) (l : Assembly.Location) (members : List Member) :
      r.selection.below? position = some inner →
        r.Builds (Assembly.shapeAt c parent doc inner l members) inner

/-- The registry lists the shapes of the tree in their order, with the signatures of what they are built
from and with their references, and nothing else. -/
structure ShapeTree.Mirrors (t : ShapeTree) (r : ResolvedFragment) (registry : NameRegistry Signature) :
    Prop where
  paths : registry.paths = t.shapes.map Shape.path
  /-- The signature of a shape is that of a selection from which it is built and which it shows. -/
  signature : ∀ x ∈ t.shapes, ∃ sel, r.Builds x sel ∧ List.Forall₂ Member.Renders x.members sel.slots ∧
    registry.get? x.name x.scope = some ⟨x.name, x.scope, sel.signature⟩
  /-- It is that of every selection whose position leads to the shape. -/
  signature_follow : ∀ position x inner, t.follow t.root position = some x →
    r.selection.below? position = some inner →
      registry.get? x.name x.scope = some ⟨x.name, x.scope, inner.signature⟩
  namesIn : ∀ scope, registry.namesIn scope = (t.shapes.filter (·.scope = scope)).map (·.name)
  children : ∀ x ∈ t.shapes, registry.children x.path = x.references.eraseDups

namespace ResolvedFragment

variable {r : ResolvedFragment} {o : AssemblyOptions} {t : ShapeTree}
  {registry : NameRegistry Signature}

/-- The registry behind a tree is that of the run it comes from. -/
theorem exists_mirrored_run (h : r.assembleWith o .empty = (.ok t, registry)) :
    ∃ s, t.Sound r.Builds r s ∧ s.registry = registry ∧ s.Mirrored ∧
      ∀ x ∈ s.shapes, s.registry.children x.path = x.references.eraseDups := by
  have hfst : (r.assembleWith o .empty).1 = .ok t := congrArg Prod.fst h
  obtain ⟨shared, s, hshared, hrun, hshapes⟩ := exists_run hfst
  have hregistry : (r.assembleWith o .empty).2 = s.registry := by
    rw [assembleWith, hshared]
    dsimp only
    rw [hrun]
  have hsound : t.Sound r.Builds r s := sound_of_run
    (fun position inner _ hinner parent doc l members => .below _ parent doc l members hinner)
    (fun name members => .root _ name members) hrun hshapes
  exact ⟨s, hsound, by rw [← hregistry, h],
    (Assembly.ensures_assembleRoot_mirrored _ r).of_eq_ok hrun⟩

/-- Where a fragment alone fills a registry, the registry mirrors its tree, whatever the policy, the limit
of depth and the custom names: also where shapes are used again, lifted to the top or shared. -/
theorem mirrors_of_assembleWith (h : r.assembleWith o .empty = (.ok t, registry)) :
    t.Mirrors r registry := by
  obtain ⟨s, hsound, rfl, hmirrored, hchildren⟩ := exists_mirrored_run h
  have hplaces : s.registry.places = t.shapes.map fun x => (x.name, x.scope) :=
    hsound.shapes ▸ hmirrored
  have hget {x : Shape} {signature : Signature} (hx : x ∈ t.shapes)
      (hsignature : s.registry.signature? x.path = some signature) :
      s.registry.get? x.name x.scope = some ⟨x.name, x.scope, signature⟩ :=
    hmirrored.get?_eq_some hsound.state.nodup (hsound.shapes ▸ hx) hsignature
  refine
    { paths := hmirrored.paths_eq.trans (hsound.shapes ▸ rfl)
      signature := fun x hx => ?_
      signature_follow := fun position x inner hx hinner => ?_
      namesIn := fun scope => ?_
      children := fun x hx => hchildren x (hsound.shapes ▸ hx) }
  · obtain ⟨sel, hbuilds, hsignature, hshows⟩ := hsound.state.shows x (hsound.shapes ▸ hx)
    exact ⟨sel, hbuilds, hshows.imp fun _ _ hslot => hslot.1, hget hx hsignature⟩
  · obtain ⟨hmem, hsignature⟩ := hsound.follow_eq_some hsound.root_mem hsound.root hx hinner
    exact hget hmem hsignature
  · rw [NameRegistry.namesIn_eq, hplaces, List.filter_map, List.map_map]
    rfl

theorem exists_run_of_isOk {ε α σ : Type} {x : Except ε α × σ} (h : x.1.isOk = true) :
    ∃ value state, x = (.ok value, state) := by
  obtain ⟨value | value, state⟩ := x
  · cases h
  · exact ⟨value, state, rfl⟩

/-- The posts of both users have one shape, which is lifted to the top and belongs to both. -/
theorem mirrors_card :
    ∃ t registry, card.assembleWith (.ofPolicy { placement := .mixed }) .empty = (.ok t, registry) ∧
      t.Mirrors card registry := by
  obtain ⟨t, registry, h⟩ := exists_run_of_isOk (by decide +kernel : (card.assembleWith
    (.ofPolicy { placement := .mixed }) .empty).1.isOk = true)
  exact ⟨t, registry, h, mirrors_of_assembleWith h⟩

end ResolvedFragment

end FragmentShapes
