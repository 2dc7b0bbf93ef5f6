import FragmentShapes.Proofs.Assembly.Tree
import FragmentShapes.Proofs.Selection.Distinct

/-!
# Names of members

The members of a shape are named apart exactly if no field of its selection is named like the member of
one of its variants (`ResolvedFragment.OfDocuments.nodup_memberNames_iff`). Nothing sees to this:
`ResolvedFragment.shadow` has a field and a variant of one name in one shape.
-/

namespace FragmentShapes

/-- The names of the members of a shape are those of the slots that they show. -/
theorem map_name_of_shows {s : AssemblyState} {members : List Member} {slots : List Slot}
    (h : List.Forall₂ s.Shows members slots) : members.map (·.name) = slots.map Slot.name := by
  induction h with
  | nil => rfl
  | cons hfirst _ ih => rw [List.map_cons, List.map_cons, hfirst.1.name, ih]

/-- The shape and the selections that it stands for have one way to name slots. -/
theorem ShapeTree.Sound.map_name_members {P : Shape → Selection → Prop} {r : ResolvedFragment}
    {t : ShapeTree} {s : AssemblyState} (h : t.Sound P r s) {x : Shape} {sel : Selection}
    (hx : x ∈ t.shapes) (hsignature : s.registry.signature? x.path = some sel.signature) :
    x.members.map (·.name) = sel.slots.map Slot.name := by
  obtain ⟨sel₀, -, hsame, hmembers⟩ := h.state.shows x (h.shapes ▸ hx)
  rw [hsignature, Option.some.injEq] at hsame
  have hslots := congrArg (List.map Prod.fst) (Selection.slots_signature hsame)
  rw [List.map_map, List.map_map] at hslots
  exact (map_name_of_shows hmembers).trans hslots.symm

/-- In every shape of a tree the members are named apart exactly if at no position a field is named like
the member of a variant beside it. -/
theorem ResolvedFragment.OfDocuments.nodup_memberNames_iff {r : ResolvedFragment} (hr : r.OfDocuments)
    {o : AssemblyOptions} {registry : NameRegistry Signature} {t : ShapeTree}
    (h : (r.assembleWith o registry).1 = .ok t) :
    (∀ x ∈ t.shapes, (x.members.map (·.name)).Nodup) ↔
      ∀ position sel, r.selection.below? position = some sel →
        ∀ f ∈ sel.fields, ∀ v ∈ sel.variants,
          f.info.name ≠ NamingPolicy.variantMember v.typeName := by
  -- each shape is for the selection at some position
  obtain ⟨s, hsound⟩ := sound_of_assembleWith
    (P := fun _ sel => ∃ position, r.selection.below? position = some sel)
    (fun _ position _ _ hinner _ _ _ _ => ⟨position, hinner⟩)
    (fun _ _ _ => ⟨[], Selection.below?_nil _⟩) h
  constructor
  · intro hnodup position sel hsel
    have hrel := hsound.follow_rel hsound.root_mem hsound.root position
    rw [hsel] at hrel
    generalize t.follow t.root position = shape? at hrel
    cases hrel with
    | @some x _ hboth =>
      have hnames := hnodup x hboth.1
      rw [hsound.map_name_members hboth.1 hboth.2] at hnames
      exact (Selection.nodup_slotNames_iff (Selection.distinctLevel_of_ofDocuments hr hsel)).1 hnames
  · intro hapart x hx
    obtain ⟨sel, ⟨position, hsel⟩, hsignature, -⟩ := hsound.state.shows x (hsound.shapes ▸ hx)
    rw [hsound.map_name_members hx hsignature]
    exact (Selection.nodup_slotNames_iff (Selection.distinctLevel_of_ofDocuments hr hsel)).2
      (hapart position sel hsel)

/-! ## A field that is named like a variant -/

/-- A fragment with a field that is named like the member of its variant. -/
def Fragment.shadow : Fragment where
  name := "Card"
  onType := "Content"
  entries :=
    [.field { name := "asArticle" } [],
      .condition "Article" none [.field { name := "body" } []]]

theorem Fragment.shadow_ofDocument : Fragment.shadow.OfDocument :=
  ⟨"fragment Card on Content { asArticle ... on Article { body } }", [Fragment.shadow],
    by rw [Fragment.parseDocument_ofList]; decide +kernel,
    List.mem_singleton_self _⟩

/-- The fragment as it is resolved without a schema. -/
def ResolvedFragment.shadow : ResolvedFragment := Fragment.shadow.resolve { schema := none } []

theorem ResolvedFragment.shadow_ofDocuments : ResolvedFragment.shadow.OfDocuments :=
  ⟨{ schema := none }, [], Fragment.shadow, by simp, by simp, Fragment.shadow_ofDocument, rfl⟩

/-- The shape of the fragment has the discriminant, the field and the variant, two of them named alike. -/
theorem ResolvedFragment.memberNames_shadow :
    ∃ t, (ResolvedFragment.shadow.assembleWith (.ofPolicy {}) .empty).1 = .ok t ∧
      t.root.members.map (·.name) = ["__typename", "asArticle", "asArticle"] ∧
      ¬ (t.root.members.map (·.name)).Nodup := by
  have hnames : (ResolvedFragment.shadow.assembleWith (.ofPolicy {}) .empty).1.toOption.map
      (fun t => t.root.members.map (·.name)) = some ["__typename", "asArticle", "asArticle"] := by
    decide +kernel
  obtain ⟨t, ht⟩ := exists_of_isOk (by decide +kernel :
    (ResolvedFragment.shadow.assembleWith (.ofPolicy {}) .empty).1.isOk = true)
  rw [ht] at hnames
  have hroot : t.root.members.map (·.name) = ["__typename", "asArticle", "asArticle"] :=
    Option.some.inj hnames
  refine ⟨t, ht, hroot, ?_⟩
  rw [hroot]
  decide

/-- The position that spoils the names is the top of the selection. -/
theorem ResolvedFragment.not_nodup_memberNames_shadow :
    ∃ t, (ResolvedFragment.shadow.assembleWith (.ofPolicy {}) .empty).1 = .ok t ∧
      ¬ ∀ x ∈ t.shapes, (x.members.map (·.name)).Nodup := by
  obtain ⟨t, ht⟩ := exists_of_isOk (by decide +kernel :
    (ResolvedFragment.shadow.assembleWith (.ofPolicy {}) .empty).1.isOk = true)
  refine ⟨t, ht, fun hnodup => ?_⟩
  have hapart := (shadow_ofDocuments.nodup_memberNames_iff ht).1 hnodup [] _ (Selection.below?_nil _)
  have hclash : (ResolvedFragment.shadow.selection.fields.any fun f =>
      ResolvedFragment.shadow.selection.variants.any fun v =>
        f.info.name = NamingPolicy.variantMember v.typeName) = true := by
    decide +kernel
  obtain ⟨f, hf, hclash⟩ := List.any_eq_true.1 hclash
  obtain ⟨v, hv, hsame⟩ := List.any_eq_true.1 hclash
  exact hapart f hf v hv (of_decide_eq_true hsame)

end FragmentShapes
