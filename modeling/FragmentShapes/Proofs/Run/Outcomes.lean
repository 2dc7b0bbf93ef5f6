import FragmentShapes.Generator
import FragmentShapes.Proofs.Selection.Names

/-!
# What becomes of the fragments of a run

A run takes its valid fragments one after another, and each has an outcome: a tree or an error. The
result is put together from the outcomes (`Generator.generate_eq`), so that two runs with the same
outcomes have the same result. Only the registry goes from one fragment to the next.
-/

namespace FragmentShapes

/-- What becomes of a fragment: a tree, or the reason why it has none. -/
abbrev Outcome := Except AssemblyError ShapeTree

/-- A tree is for the fragment that it comes from. -/
theorem ResolvedFragment.fragment_of_assembleWith {r : ResolvedFragment} {o : AssemblyOptions}
    {registry : NameRegistry Signature} {t : ShapeTree} (h : (r.assembleWith o registry).1 = .ok t) :
    t.fragment = r.name := by
  rw [assembleWith] at h
  split at h
  · cases h
  · split at h
    · cases h
    · cases h
      rfl

namespace GenerationResult

/-- The result of fragments with these outcomes. An unusable reference ends the run. -/
def ofOutcomes : List (ResolvedFragment × Outcome) → Except TypeRef.Fault GenerationResult
  | [] => .ok ⟨[], [], []⟩
  | (r, .ok tree) :: rest => (ofOutcomes rest).map (·.withTree tree r.diagnostics)
  | (r, .error (.naming e)) :: rest =>
    let code : DiagnosticCode := if e.isCollision then .namingCollision else .configurationError
    let d := Diagnostic.report code e.message (some r.name)
    (ofOutcomes rest).map (·.withFailure r.name (r.diagnostics ++ [d]))
  | (_, .error (.typeRef fault)) :: _ => .error fault

end GenerationResult

namespace Generator

/-- The outcomes of fragments assembled one after another on one registry. -/
def outcomes (c : Config) (registry : NameRegistry Signature) :
    List ResolvedFragment → List (ResolvedFragment × Outcome)
  | [] => []
  | r :: rest =>
    (r, (r.assemble c registry).1) :: outcomes c (r.assemble c registry).2 rest

/-- The registry behind fragments assembled one after another. -/
def registryAfter (c : Config) (registry : NameRegistry Signature) (rs : List ResolvedFragment) :
    NameRegistry Signature :=
  rs.foldl (fun registry r => (r.assemble c registry).2) registry

variable {c : Config} {registry : NameRegistry Signature}

theorem map_name_outcomes (c : Config) (registry : NameRegistry Signature)
    (rs : List ResolvedFragment) : (outcomes c registry rs).map (·.1.name) = rs.map (·.name) := by
  induction rs generalizing registry with
  | nil => rfl
  | cons r rs ih => rw [outcomes, List.map_cons, ih, List.map_cons]

theorem outcomes_append (first second : List ResolvedFragment) :
    outcomes c registry (first ++ second) =
      outcomes c registry first ++ outcomes c (registryAfter c registry first) second := by
  induction first generalizing registry with
  | nil => rfl
  | cons r first ih => rw [List.cons_append, outcomes, outcomes, ih, List.cons_append]; rfl

/-- Each outcome is that of assembling the fragment on what the earlier ones have left. -/
theorem exists_of_mem_outcomes {rs : List ResolvedFragment} {r : ResolvedFragment} {o : Outcome}
    (h : (r, o) ∈ outcomes c registry rs) :
    r ∈ rs ∧ ∃ registry', o = (r.assemble c registry').1 := by
  induction rs generalizing registry with
  | nil => cases h
  | cons first rs ih =>
    rcases List.mem_cons.1 h with h | h
    · cases h
      exact ⟨List.mem_cons_self, registry, rfl⟩
    · obtain ⟨hr, hregistry⟩ := ih h
      exact ⟨List.mem_cons_of_mem _ hr, hregistry⟩

/-- A tree among the outcomes is for the fragment beside it. -/
theorem fragment_of_mem_outcomes {rs : List ResolvedFragment} {r : ResolvedFragment} {tree : ShapeTree}
    (h : (r, .ok tree) ∈ outcomes c registry rs) : tree.fragment = r.name := by
  obtain ⟨-, registry', htree⟩ := exists_of_mem_outcomes h
  exact ResolvedFragment.fragment_of_assembleWith htree.symm

/-- What a run produces depends on the outcomes only. -/
theorem assembleAll_fst (rs : List ResolvedFragment) :
    (assembleAll c registry rs).1 = GenerationResult.ofOutcomes (outcomes c registry rs) := by
  induction rs generalizing registry with
  | nil => rfl
  | cons r rs ih =>
    have hcons : outcomes c registry (r :: rs) =
        (r, (r.assemble c registry).1) :: outcomes c (r.assemble c registry).2 rs := rfl
    rw [assembleAll, hcons]
    split
    · next tree registry' heq => rw [heq, GenerationResult.ofOutcomes, ← ih]
    · next e registry' heq => rw [heq, GenerationResult.ofOutcomes, ← ih]
    · next fault registry' heq => rw [heq, GenerationResult.ofOutcomes]

/-- The valid fragments of a run, resolved among each other. -/
def resolved (c : Config) (fragments : List Fragment) (schema : Option Schema) :
    List ResolvedFragment :=
  (validate schema [] fragments).valid.map
    (·.resolve (resolutionContext c schema) (validate schema [] fragments).valid)

theorem map_name_resolved (c : Config) (fragments : List Fragment) (schema : Option Schema) :
    (resolved c fragments schema).map (·.name) =
      (validate schema [] fragments).valid.map (·.name) := by
  rw [resolved, List.map_map]
  rfl

/-- The result of a run is that of the outcomes of its valid fragments, behind what was reported before
any of them was looked at. -/
theorem generate_eq (g : Generator) (fragments : List Fragment) (schema : Option Schema) :
    (g.generate fragments schema).1 =
      ((GenerationResult.ofOutcomes
          (outcomes g.config .empty (resolved g.config fragments schema))).map
        (·.after (g.pending ++ missingSchemaDiagnostics g.config schema ++
            (validate schema [] fragments).diagnostics)
          (validate schema [] fragments).failed)).mapError .typeRef := by
  rw [← assembleAll_fst]
  rfl

/-- The fragments of a run come from documents, and its schema does if there is one. -/
structure ReadsDocuments (fragments : List Fragment) (schema : Option Schema) : Prop where
  fragments : ∀ f ∈ fragments, f.OfDocument
  schema : ∀ s ∈ schema, s.OfDocuments

/-! ## Validation -/

theorem valid_sublist (schema : Option Schema) (seen : List String) (fragments : List Fragment) :
    (validate schema seen fragments).valid.Sublist fragments := by
  induction fragments generalizing seen with
  | nil => exact .refl _
  | cons f fragments ih =>
    rw [validate]
    split
    · exact (ih seen).cons f
    · split
      · exact (ih seen).cons f
      · exact (ih _).cons_cons f

/-- Valid fragments have distinct names, and none that was seen before. -/
theorem nodup_valid (schema : Option Schema) (seen : List String) (fragments : List Fragment) :
    ((validate schema seen fragments).valid.map (·.name)).Nodup ∧
      ∀ f ∈ (validate schema seen fragments).valid, f.name ∉ seen := by
  induction fragments generalizing seen with
  | nil => exact ⟨List.nodup_nil, nofun⟩
  | cons f fragments ih =>
    rw [validate]
    split
    · exact ih seen
    · split
      · exact ih seen
      · next hseen =>
        obtain ⟨hnodup, hfresh⟩ := ih (f.name :: seen)
        refine ⟨List.nodup_cons.2 ⟨fun hmem => ?_, hnodup⟩, List.forall_mem_cons.2 ⟨?_, ?_⟩⟩
        · obtain ⟨other, hother, hname⟩ := List.mem_map.1 hmem
          exact hfresh other hother (hname ▸ List.mem_cons_self)
        · exact fun hmem => hseen (List.contains_iff_mem.2 hmem)
        · exact fun other hother hmem => hfresh other hother (List.mem_cons_of_mem _ hmem)

theorem ReadsDocuments.valid {fragments : List Fragment} {schema : Option Schema}
    (h : ReadsDocuments fragments schema) (seen : List String) :
    ReadsDocuments (validate schema seen fragments).valid schema :=
  ⟨fun f hf => h.fragments f ((valid_sublist schema seen fragments).subset hf), h.schema⟩

theorem ReadsDocuments.ofDocuments_resolve {fragments : List Fragment} {schema : Option Schema}
    (h : ReadsDocuments fragments schema) (c : Config) {f : Fragment} (hf : f ∈ fragments) :
    (f.resolve (resolutionContext c schema) fragments).OfDocuments := by
  refine ⟨_, _, f, fun s hs => ?_, h.fragments, h.fragments f hf, rfl⟩
  rw [resolutionContext] at hs
  dsimp only at hs
  split_ifs at hs
  · exact h.schema s hs
  · cases hs

theorem ReadsDocuments.ofDocuments_resolved {fragments : List Fragment} {schema : Option Schema}
    (h : ReadsDocuments fragments schema) (c : Config) :
    ∀ r ∈ resolved c fragments schema, r.OfDocuments := by
  intro r hr
  obtain ⟨f, hf, rfl⟩ := List.mem_map.1 hr
  exact (h.valid []).ofDocuments_resolve c hf

end Generator

end FragmentShapes
