import FragmentShapes.Proofs.Assembly.Invariant
import FragmentShapes.Proofs.Selection.Distinct

/-!
# Trees of shapes

What every tree is like, whatever the policy, the custom names and the names registered before.
`ResolvedFragment.dependencyOrder_of_assembleWith`: paths are distinct, references go to earlier shapes,
the root comes last and leads to all others. `ResolvedFragment.OfDocuments.unfolds_of_assembleWith`:
unfolded from its root the tree is the selection again, also where a shape is used more than once.
-/

namespace FragmentShapes

namespace ShapeTree

variable {P : Shape → Selection → Prop} {r : ResolvedFragment} {t : ShapeTree} {s : AssemblyState}

theorem Sound.nodup (h : t.Sound P r s) : (t.shapes.map Shape.path).Nodup := h.shapes ▸ h.state.nodup

theorem Sound.root_mem (h : t.Sound P r s) : t.root ∈ t.shapes := by
  obtain ⟨front, hfront⟩ := h.last
  rw [hfront]
  exact List.mem_append_right _ (List.mem_singleton_self _)

theorem exists_follow_cons (hpaths : (t.shapes.map Shape.path).Nodup) {x y z : Shape}
    {position : List Nat} (hz : z ∈ t.shapes) (hpath : z.path ∈ y.references)
    (h : t.follow z position = some x) : ∃ number, t.follow y (number :: position) = some x := by
  obtain ⟨m, hm, hshape⟩ := List.mem_filterMap.1 hpath
  obtain ⟨number, hnumber⟩ := List.mem_iff_getElem?.1 hm
  exact ⟨number, follow_cons_eq_some.2 ⟨m, z.path, z, hnumber, hshape, shape?_of_mem hpaths hz, h⟩⟩

/-- References that lead to a shape can be followed to it. -/
theorem exists_follow_of_reachable (hpaths : (t.shapes.map Shape.path).Nodup)
    {references : List String} {x : Shape} (h : Reachable t.shapes references x) {y : Shape}
    (hy : references = y.references) : ∃ position, t.follow y position = some x := by
  induction h generalizing y with
  | here hmem hpath =>
    obtain ⟨number, hfollow⟩ := exists_follow_cons hpaths hmem (hy ▸ hpath) (follow_nil _)
    exact ⟨_, hfollow⟩
  | through hmem hpath _ ih =>
    obtain ⟨position, hposition⟩ := ih rfl
    obtain ⟨number, hfollow⟩ := exists_follow_cons hpaths hmem (hy ▸ hpath) hposition
    exact ⟨_, hfollow⟩

/-- The members of a shape against the slots of any selection of the registered signature. -/
theorem Sound.members (h : t.Sound P r s) {x : Shape} {sel : Selection} (hx : x ∈ t.shapes)
    (hsignature : s.registry.signature? x.path = some sel.signature) :
    ∃ sel₀, P x sel₀ ∧ sel₀.signature = sel.signature ∧
      List.Forall₂ (fun m slot => slot ∈ sel.slots ∧ ∃ slot₀ ∈ sel₀.slots,
        s.Shows m slot₀ ∧ slot₀.signature = slot.signature) x.members sel.slots := by
  obtain ⟨sel₀, hP, hsame, hmembers⟩ := h.state.shows x (h.shapes ▸ hx)
  rw [hsignature, Option.some.injEq] at hsame
  exact ⟨sel₀, hP, hsame.symm, forall₂_of_map_eq hmembers (Selection.slots_signature hsame.symm)⟩

/-- Following the tree and going down the selection reach shapes and selections of equal signatures. -/
theorem Sound.follow_rel (h : t.Sound P r s) {x : Shape} {sel : Selection} (hx : x ∈ t.shapes)
    (hsignature : s.registry.signature? x.path = some sel.signature) (position : List Nat) :
    Option.Rel (fun y inner => y ∈ t.shapes ∧
      s.registry.signature? y.path = some inner.signature)
      (t.follow x position) (sel.below? position) := by
  induction position generalizing x sel with
  | nil =>
    rw [follow_nil, Selection.below?_nil]
    exact .some ⟨hx, hsignature⟩
  | cons number position ih =>
    -- `x` may have been built for another selection `sel₀`, whose slots have the same signatures
    obtain ⟨sel₀, -, -, hmembers⟩ := h.members hx hsignature
    have hrel := rel_getElem? hmembers number
    rw [follow, Selection.below?]
    generalize x.members[number]? = member? at hrel ⊢
    generalize sel.slots[number]? = slot? at hrel ⊢
    cases hrel with
    | none => exact .none
    | @some m slot hslot =>
      obtain ⟨-, slot₀, -, hshows, hsame⟩ := hslot
      have hselection : slot₀.selection?.map Selection.signature =
          slot.selection?.map Selection.signature := congrArg (·.2.2.2.2) hsame
      rw [Option.bind_some, Option.bind_some]
      cases hinner₀ : slot₀.selection? with
      | none =>
        have hshape : m.shape = none := by simpa [hinner₀] using hshows.1.shape
        rw [hinner₀, Option.map_none, eq_comm, Option.map_eq_none_iff] at hselection
        rw [hshape, hselection]
        exact .none
      | some inner₀ =>
        obtain ⟨path, hpath, hmem, hregistered⟩ := hshows.2 inner₀ hinner₀
        rw [hinner₀, Option.map_some, eq_comm, Option.map_eq_some_iff] at hselection
        obtain ⟨inner, hinner, hinnerSignature⟩ := hselection
        rw [AssemblyState.paths, ← h.shapes] at hmem
        obtain ⟨z, hz⟩ := exists_shape? hmem
        obtain ⟨hzmem, hzpath⟩ := mem_of_shape? hz
        rw [hpath, hinner, Option.bind_some, Option.bind_some, hz, Option.bind_some]
        exact ih hzmem (by rw [hzpath, hregistered, hinnerSignature])

theorem Sound.follow_eq_some (h : t.Sound P r s) {x y : Shape} {sel inner : Selection}
    {position : List Nat} (hx : x ∈ t.shapes)
    (hsignature : s.registry.signature? x.path = some sel.signature)
    (hy : t.follow x position = some y) (hinner : sel.below? position = some inner) :
    y ∈ t.shapes ∧ s.registry.signature? y.path = some inner.signature := by
  have hrel := h.follow_rel hx hsignature position
  rw [hy, hinner] at hrel
  cases hrel with
  | some hboth => exact hboth

end ShapeTree

/-! ## A fragment to show the statements on -/

/-- A fragment that selects the posts of two users alike. -/
def Fragment.card : Fragment where
  name := "Card"
  onType := "User"
  entries :=
    [.field { name := "posts" } [.field { name := "id" } []],
      .field { name := "friend" } [.field { name := "posts" } [.field { name := "id" } []]]]

theorem Fragment.card_ofDocument : Fragment.card.OfDocument :=
  ⟨"fragment Card on User { posts { id } friend { posts { id } } }", [Fragment.card],
    by rw [Fragment.parseDocument_ofList]; decide +kernel,
    List.mem_singleton_self _⟩

/-- The fragment as it is resolved without a schema. -/
def ResolvedFragment.card : ResolvedFragment := Fragment.card.resolve { schema := none } []

theorem ResolvedFragment.card_ofDocuments : ResolvedFragment.card.OfDocuments :=
  ⟨{ schema := none }, [], Fragment.card, by simp, by simp, Fragment.card_ofDocument, rfl⟩

/-- A policy with nothing custom about types. -/
def AssemblyOptions.ofPolicy (policy : NamingPolicy) : AssemblyOptions where
  policy
  scalars := {}
  target := "models"

theorem exists_of_isOk {ε α : Type} {x : Except ε α} (h : x.isOk = true) :
    ∃ value, x = .ok value := by
  cases x with
  | ok value => exact ⟨value, rfl⟩
  | error e => cases h

/-! ## Order -/

/-- Whatever is assembled, however it is named and placed and whatever is registered before: paths are
distinct, each reference is to an earlier shape, the root comes last and every shape is reached from
it. -/
theorem ResolvedFragment.dependencyOrder_of_assembleWith {r : ResolvedFragment} {o : AssemblyOptions}
    {registry : NameRegistry Signature} {t : ShapeTree} (h : (r.assembleWith o registry).1 = .ok t) :
    (t.shapes.map Shape.path).Nodup ∧
      (∀ (i : Nat) (x : Shape), t.shapes[i]? = some x → ∀ m ∈ x.members, ∀ path,
        m.shape = some path → ∃ j < i, ∃ y, t.shapes[j]? = some y ∧ y.path = path) ∧
      t.shapes.getLast? = some t.root ∧
      ∀ x ∈ t.shapes, ∃ position, t.follow t.root position = some x := by
  obtain ⟨s, hsound⟩ := sound_of_assembleWith (P := fun _ _ => True)
    (fun _ _ _ _ _ _ _ _ _ => trivial) (fun _ _ _ => trivial) h
  refine ⟨hsound.nodup, fun i x hx m hm path hpath => ?_, ?_, fun x hx => ?_⟩
  · rw [hsound.shapes] at hx ⊢
    exact hsound.state.earlier i x hx path (List.mem_filterMap.2 ⟨m, hm, hpath⟩)
  · obtain ⟨front, hfront⟩ := hsound.last
    rw [hfront, List.getLast?_concat]
  · rcases hsound.reachable x hx with rfl | hreach
    · exact ⟨[], ShapeTree.follow_nil _⟩
    · exact ShapeTree.exists_follow_of_reachable hsound.nodup hreach rfl

/-- A custom name, a limit of depth and a root that is registered already. -/
theorem ResolvedFragment.dependencyOrder_card :
    ∃ t, (ResolvedFragment.card.assembleWith
        (.ofPolicy { custom := [("friend", "Person")], maxDepth := 1 })
        { registrations := [⟨"CardFragment", globalScope, card.selection.signature⟩] }).1 = .ok t ∧
      (t.shapes.map Shape.path).Nodup ∧
      (∀ (i : Nat) (x : Shape), t.shapes[i]? = some x → ∀ m ∈ x.members, ∀ path,
        m.shape = some path → ∃ j < i, ∃ y, t.shapes[j]? = some y ∧ y.path = path) ∧
      t.shapes.getLast? = some t.root ∧
      ∀ x ∈ t.shapes, ∃ position, t.follow t.root position = some x := by
  obtain ⟨t, ht⟩ := exists_of_isOk (by decide +kernel : (ResolvedFragment.card.assembleWith
    (.ofPolicy { custom := [("friend", "Person")], maxDepth := 1 })
    { registrations := [⟨"CardFragment", globalScope, card.selection.signature⟩] }).1.isOk = true)
  exact ⟨t, ht, dependencyOrder_of_assembleWith ht⟩

/-! ## Structure -/

/-- The shape is of the kind and for the type of the selection, which is well named. -/
def Shape.IsFor (x : Shape) (sel : Selection) : Prop :=
  sel.WellNamed ∧ x.sourceType = sel.typeName ∧ x.isDiscriminated = sel.isDiscriminated

/-- A shape shows every well-named selection of the signature that is registered for it. -/
theorem ShapeTree.Sound.renders {r : ResolvedFragment} {t : ShapeTree} {s : AssemblyState}
    (h : t.Sound Shape.IsFor r s) {x : Shape} {sel : Selection} (hx : x ∈ t.shapes)
    (hsignature : s.registry.signature? x.path = some sel.signature) (hsel : sel.WellNamed) :
    x.Renders sel := by
  obtain ⟨sel₀, ⟨hsel₀, htype, hkind⟩, hsame, hmembers⟩ := h.members hx hsignature
  refine ⟨htype.trans (Selection.typeName_of_signature hsame),
    hkind.trans (Selection.isDiscriminated_of_signature hsame), hmembers.imp ?_⟩
  rintro m slot ⟨hslot, slot₀, hslot₀, hshows, hslotSignature⟩
  exact hshows.1.of_signature (hsel₀.type slot₀ hslot₀) (hsel.type slot hslot) hslotSignature

theorem Fragment.resolve_typeName (c : Selection.Context) (known : List Fragment) (f : Fragment) :
    (f.resolve c known).selection.typeName = some f.onType :=
  Selection.typeName_resolveWithin c _ _ _

/-- Whatever fragments of documents resolve to, however it is named and placed and whatever is
registered before: unfolded from its root, the tree shows the selection at every position and has no
others. Two positions may share a shape if its name and the signature allow; the shape shows both. -/
theorem ResolvedFragment.OfDocuments.unfolds_of_assembleWith {r : ResolvedFragment}
    (hr : r.OfDocuments) {o : AssemblyOptions} {registry : NameRegistry Signature} {t : ShapeTree}
    (h : (r.assembleWith o registry).1 = .ok t) (position : List Nat) :
    Option.Rel Shape.Renders (t.follow t.root position) (r.selection.below? position) := by
  have hnamed := hr.wellNamed.2
  have htype : r.selection.typeName = some r.onType := by
    obtain ⟨c, known, f, -, -, -, rfl⟩ := hr
    exact Fragment.resolve_typeName c known f
  have hbelow : ∀ {position : List Nat} {inner : Selection},
      r.selection.below? position = some inner → inner.WellNamed :=
    Selection.holds_below (fun _ => Selection.WellNamed.of_slot) hnamed
  obtain ⟨s, hsound⟩ := sound_of_assembleWith (P := Shape.IsFor)
    (fun _ _ _ _ hinner _ _ _ _ => ⟨hbelow hinner, rfl, rfl⟩)
    (fun _ _ _ => ⟨hnamed, htype.symm, rfl⟩) h
  have hrel := hsound.follow_rel hsound.root_mem hsound.root position
  generalize hshape : t.follow t.root position = shape? at hrel ⊢
  generalize hinner : r.selection.below? position = inner? at hrel ⊢
  cases hrel with
  | none => exact .none
  | some hshown => exact .some (hsound.renders hshown.1 hshown.2 (hbelow hinner))

/-- The posts of both users have one shape. -/
theorem ResolvedFragment.unfolds_card :
    ∃ t, (ResolvedFragment.card.assembleWith (.ofPolicy { placement := .mixed }) .empty).1 = .ok t ∧
      ∀ position, Option.Rel Shape.Renders (t.follow t.root position)
        (ResolvedFragment.card.selection.below? position) := by
  obtain ⟨t, ht⟩ := exists_of_isOk (by decide +kernel : (ResolvedFragment.card.assembleWith
    (.ofPolicy { placement := .mixed }) .empty).1.isOk = true)
  exact ⟨t, ht, card_ofDocuments.unfolds_of_assembleWith ht⟩

end FragmentShapes
