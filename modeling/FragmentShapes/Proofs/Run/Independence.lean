import FragmentShapes.Proofs.Assembly.Collision
import FragmentShapes.Proofs.Assembly.Locality
import FragmentShapes.Proofs.Run.Accounting
import FragmentShapes.Proofs.Selection.Possible

/-!
# Fragments of one run

The fragments of a run share one registry, and a failed one leaves in it what it has registered so far.
A fragment still comes to the same as by itself if no other has a path of it: so do fragments without
underscores in their names and with distinct roots (`Generator.Reached.records_generate`).
-/

namespace FragmentShapes

open NamingPolicy (Owns Apart withFragmentSuffix)
open Diagnostic (NoFailure)

/-! ## Registries -/

section Registries

variable {registry registry' : NameRegistry Signature} {other : String}

theorem NameRegistry.AgreesOn.refl (fragment : String) (registry : NameRegistry Signature) :
    registry.AgreesOn fragment registry := fun _ _ => rfl

/-- A fragment leaves the paths of one that is apart from it. -/
theorem ResolvedFragment.agreesOn_of_apart (r : ResolvedFragment) (c : Config)
    (registry : NameRegistry Signature) (h : Apart r.name other) :
    registry.AgreesOn other (r.assemble c registry).2 := by
  intro path hother
  obtain ⟨-, -, hoff⟩ := r.assembleWith_local c.assemblyOptions (.refl r.name registry)
  exact hoff path fun howns => h path howns hother

/-- Registries that agree on the paths of a fragment still do so behind any other one. -/
theorem ResolvedFragment.agreesOn_assemble (r : ResolvedFragment) (c : Config)
    (hr : registry.AgreesOn r.name registry') (hother : registry.AgreesOn other registry') :
    (r.assemble c registry).2.AgreesOn other (r.assemble c registry').2 := by
  obtain ⟨-, hon, hoff⟩ := r.assembleWith_local c.assemblyOptions hr
  obtain ⟨-, -, hoff'⟩ := r.assembleWith_local c.assemblyOptions (.refl r.name registry')
  intro path hpath
  -- what both own comes to the same in both; what the first does not own stays as it was in both
  by_cases howns : Owns r.name path
  · exact hon path howns
  · have hbefore := hother path hpath
    rw [← hoff path howns, ← hoff' path howns] at hbefore
    exact hbefore

end Registries

namespace Generator

variable {c : Config} {registry registry' : NameRegistry Signature} {rs : List ResolvedFragment}

/-- The outcomes depend on the paths of the fragments only. -/
theorem outcomes_congr (h : ∀ r ∈ rs, registry.AgreesOn r.name registry') :
    outcomes c registry' rs = outcomes c registry rs := by
  induction rs generalizing registry registry' with
  | nil => rfl
  | cons r rs ih =>
    obtain ⟨hr, hrs⟩ := List.forall_mem_cons.1 h
    have hfirst : (r.assemble c registry').1 = (r.assemble c registry).1 :=
      (r.assembleWith_local c.assemblyOptions hr).1
    -- the first may own paths of the others, so that its own locality is not enough for them
    rw [outcomes, outcomes, hfirst, ih fun s hs => r.agreesOn_assemble c hr (hrs s hs)]

/-- Fragments that are apart have the outcomes that they have by themselves. -/
theorem outcomes_of_apart (hapart : rs.Pairwise fun r s => Apart r.name s.name)
    (h : ∀ r ∈ rs, NameRegistry.empty.AgreesOn r.name registry) :
    outcomes c registry rs = rs.map fun r => (r, (r.assemble c .empty).1) := by
  induction rs generalizing registry with
  | nil => rfl
  | cons r rs ih =>
    obtain ⟨hr, hrs⟩ := List.pairwise_cons.1 hapart
    obtain ⟨hfree, hfrees⟩ := List.forall_mem_cons.1 h
    have hfirst : (r.assemble c registry).1 = (r.assemble c .empty).1 :=
      (r.assembleWith_local c.assemblyOptions hfree).1
    rw [outcomes, hfirst, List.map_cons, ih hrs fun s hs path hpath => ?_]
    rw [r.agreesOn_of_apart c registry (hr s hs) path hpath, hfrees s hs path hpath]

end Generator

/-! ## What a result says about fragments -/

/-- What is reported about a fragment that cannot be assembled. -/
def NamingError.report (e : NamingError) (fragment : String) : Diagnostic :=
  .report (if e.isCollision then .namingCollision else .configurationError) e.message (some fragment)

theorem exists_of_map_eq_ok {ε α β : Type} {f : α → β} {x : Except ε α} {value : β}
    (h : x.map f = .ok value) : ∃ source, x = .ok source ∧ f source = value := by
  cases x with
  | ok source => exact ⟨source, rfl, Except.ok.inj h⟩
  | error e => cases h

/-- In front of and behind an entry there is no other of its name. -/
theorem name_ne_of_nodup {α : Type} {name : α → String} {front back : List α} {x : α}
    (h : ((front ++ x :: back).map name).Nodup) : ∀ y ∈ front ++ back, name y ≠ name x := by
  rw [List.map_append, List.map_cons, List.nodup_middle, ← List.map_append] at h
  intro y hy heq
  exact (List.nodup_cons.1 h).1 (heq ▸ List.mem_map_of_mem hy)

namespace GenerationResult

/-- What the result says about fragments of these names: their trees, and which have failed and why. -/
def about (names : String → Bool) (result : GenerationResult) : GenerationResult where
  trees := result.trees.filter (names ·.fragment)
  diagnostics := result.diagnostics.filter fun d => d.isFailure && d.fragment.any names
  failed := result.failed.filter names

/-- What the result says about a fragment is this outcome. -/
def Records (result : GenerationResult) (name : String) : Outcome → Prop
  | .ok tree => result.about (· = name) = ⟨[tree], [], []⟩
  | .error (.naming e) => result.about (· = name) = ⟨[], [e.report name], [name]⟩
  | .error (.typeRef _) => False

variable {result : GenerationResult} {names : String → Bool}

theorem filter_noFailure {ds : List Diagnostic} (h : NoFailure ds) :
    ds.filter (fun d => d.isFailure && d.fragment.any names) = [] := by
  refine List.filter_eq_nil_iff.2 fun d hd => ?_
  rw [h d hd]
  exact Bool.false_ne_true

theorem about_after (result : GenerationResult) (ds : List Diagnostic) (failed : List String) :
    (result.after ds failed).about names = (result.about names).after
      (ds.filter fun d => d.isFailure && d.fragment.any names) (failed.filter names) := by
  simp only [about, after, List.filter_append]

theorem about_withTree {tree : ShapeTree} {ds : List Diagnostic} (hds : NoFailure ds) :
    (result.withTree tree ds).about names =
      if names tree.fragment then (result.about names).withTree tree [] else result.about names := by
  simp only [about, withTree, List.filter_append, filter_noFailure hds, List.nil_append,
    List.filter_cons]
  split_ifs <;> rfl

theorem about_withFailure (name : String) (e : NamingError) {ds : List Diagnostic}
    (hds : NoFailure ds) :
    (result.withFailure name (ds ++ [e.report name])).about names =
      if names name then (result.about names).withFailure name [e.report name]
      else result.about names := by
  have hfailure : (e.report name).isFailure = true := by
    rw [NamingError.report]
    split_ifs <;> rfl
  have hfragment : (e.report name).fragment.any names = names name := rfl
  simp only [about, withFailure, List.filter_append, filter_noFailure hds, List.nil_append,
    List.filter_cons, hfailure, hfragment, Bool.true_and, List.filter_nil]
  split_ifs <;> rfl

/-- An outcome in front of others that have a result. -/
theorem ofOutcomes_cons_eq_ok {r : ResolvedFragment} {o : Outcome}
    {outcomes : List (ResolvedFragment × Outcome)} :
    ofOutcomes ((r, o) :: outcomes) = .ok result ↔ ∃ rest, ofOutcomes outcomes = .ok rest ∧
      ((∃ tree, o = .ok tree ∧ result = rest.withTree tree r.diagnostics) ∨
        ∃ e, o = .error (.naming e) ∧
          result = rest.withFailure r.name (r.diagnostics ++ [e.report r.name])) := by
  constructor
  · intro h
    obtain (e | fault) | tree := o
    · obtain ⟨rest, hrest, rfl⟩ := exists_of_map_eq_ok h
      exact ⟨rest, hrest, .inr ⟨e, rfl, rfl⟩⟩
    · cases h
    · obtain ⟨rest, hrest, rfl⟩ := exists_of_map_eq_ok h
      exact ⟨rest, hrest, .inl ⟨tree, rfl, rfl⟩⟩
  · rintro ⟨rest, hrest, ⟨tree, rfl, rfl⟩ | ⟨e, rfl, rfl⟩⟩
    · rw [ofOutcomes, hrest]
      rfl
    · rw [ofOutcomes, hrest]
      rfl

/-- What a result says about fragments comes from their outcomes. -/
theorem about_ofOutcomes (names : String → Bool) {outcomes : List (ResolvedFragment × Outcome)}
    (h : ∀ r tree, (r, .ok tree) ∈ outcomes → tree.fragment = r.name)
    (hresult : ofOutcomes outcomes = .ok result) :
    ∃ result', ofOutcomes (outcomes.filter (names ·.1.name)) = .ok result' ∧
      result'.about names = result.about names := by
  induction outcomes generalizing result with
  | nil => exact ⟨result, hresult, rfl⟩
  | cons entry outcomes ih =>
    obtain ⟨r, o⟩ := entry
    obtain ⟨rest, hrest, hstep⟩ := ofOutcomes_cons_eq_ok.1 hresult
    obtain ⟨rest', hrest', habout⟩ := ih (fun r tree hmem => h r tree (.tail _ hmem)) hrest
    rw [List.filter_cons]
    rcases hstep with ⟨tree, rfl, rfl⟩ | ⟨e, rfl, rfl⟩
    · have hfragment : tree.fragment = r.name := h r tree (.head _)
      rw [about_withTree r.noFailure_diagnostics, hfragment]
      split_ifs with hname
      · refine ⟨_, ofOutcomes_cons_eq_ok.2 ⟨rest', hrest', .inl ⟨tree, rfl, rfl⟩⟩, ?_⟩
        rw [about_withTree r.noFailure_diagnostics, hfragment, if_pos hname, habout]
      · exact ⟨rest', hrest', habout⟩
    · rw [about_withFailure r.name e r.noFailure_diagnostics]
      split_ifs with hname
      · refine ⟨_, ofOutcomes_cons_eq_ok.2 ⟨rest', hrest', .inr ⟨e, rfl, rfl⟩⟩, ?_⟩
        rw [about_withFailure r.name e r.noFailure_diagnostics, if_pos hname, habout]
      · exact ⟨rest', hrest', habout⟩

/-- A result records each outcome that it is put together from. -/
theorem records_of_mem {outcomes : List (ResolvedFragment × Outcome)}
    (h : ∀ r tree, (r, .ok tree) ∈ outcomes → tree.fragment = r.name)
    (hnodup : (outcomes.map (·.1.name)).Nodup) (hresult : ofOutcomes outcomes = .ok result)
    {r : ResolvedFragment} {o : Outcome} (hmem : (r, o) ∈ outcomes) : result.Records r.name o := by
  have hfilter : outcomes.filter (·.1.name = r.name) = [(r, o)] := by
    obtain ⟨front, back, rfl⟩ := List.append_of_mem hmem
    have hne := name_ne_of_nodup hnodup
    simp only [List.mem_append] at hne
    rw [List.filter_append, List.filter_cons_of_pos (by simp),
      List.filter_eq_nil_iff.2 fun y hy => by simpa using hne y (.inl hy),
      List.filter_eq_nil_iff.2 fun y hy => by simpa using hne y (.inr hy), List.nil_append]
  obtain ⟨result', hresult', habout⟩ := about_ofOutcomes (· = r.name) h hresult
  rw [hfilter] at hresult'
  obtain ⟨rest, hrest, hstep⟩ := ofOutcomes_cons_eq_ok.1 hresult'
  cases hrest
  rcases hstep with ⟨tree, rfl, rfl⟩ | ⟨e, rfl, rfl⟩
  · rw [about_withTree r.noFailure_diagnostics, h r tree hmem, if_pos (decide_eq_true rfl)] at habout
    exact habout.symm
  · rw [about_withFailure r.name e r.noFailure_diagnostics, if_pos (decide_eq_true rfl)] at habout
    exact habout.symm

/-- What stands in front of the outcomes and is no failure says nothing about them. -/
theorem Records.after {name : String} {o : Outcome} (h : result.Records name o)
    {ds : List Diagnostic} (hds : NoFailure ds) : (result.after ds []).Records name o := by
  have hsame : (result.after ds []).about (· = name) = result.about (· = name) := by
    rw [about_after, filter_noFailure hds]
    rfl
  obtain (e | fault) | tree := o
  · exact hsame.trans h
  · exact h
  · exact hsame.trans h

end GenerationResult

namespace Generator

/-! ## Fragments by themselves -/

/-- The outcome of a fragment that is resolved among others and assembled on an empty registry. -/
def alone (c : Config) (schema : Option Schema) (fragments : List Fragment) (f : Fragment) : Outcome :=
  ((f.resolve (resolutionContext c schema) fragments).assemble c .empty).1

/-- Distinct names of documents are all valid. -/
theorem validate_of_nodup (schema : Option Schema) (seen : List String) {fragments : List Fragment}
    (hnames : ∀ f ∈ fragments, Text.isIdentifier f.name = true)
    (hnodup : (seen ++ fragments.map (·.name)).Nodup) :
    validate schema seen fragments =
      ⟨fragments, fragments.flatMap (typenameDiagnostics schema), []⟩ := by
  induction fragments generalizing seen with
  | nil => rfl
  | cons f fragments ih =>
    obtain ⟨hf, hfragments⟩ := List.forall_mem_cons.1 hnames
    rw [List.map_cons] at hnodup
    have hmiddle := List.nodup_middle.1 hnodup
    have hfresh : seen.contains f.name = false := by
      rw [← Bool.not_eq_true, List.contains_iff_mem]
      exact fun hmem => (List.nodup_cons.1 hmiddle).1 (List.mem_append_left _ hmem)
    have hrest := ih (f.name :: seen) hfragments hmiddle
    rw [validate, hrest, hf, hfresh]
    rfl

/-- In a run on fragments of documents without underscores in their names and with distinct roots, the
outcome of each is the one that it has by itself, whatever becomes of the others. -/
theorem Reached.records_generate {g : Generator} (hg : g.Reached) {fragments : List Fragment}
    {schema : Option Schema} (h : ReadsDocuments fragments schema)
    (hbare : ∀ f ∈ fragments, '_' ∉ f.name.toList)
    (hroots : (fragments.map (withFragmentSuffix ·.name)).Nodup) :
    ∃ result, (g.generate fragments schema).1 = .ok result ∧
      ∀ f ∈ fragments, result.Records f.name (alone g.config schema fragments f) := by
  have hidentifier : ∀ f ∈ fragments, Text.isIdentifier f.name = true := fun f hf =>
    Text.isIdentifier_of_isAsciiName (h.fragments f hf).wellNamed.1
  have hnames : (fragments.map (·.name)).Nodup := by
    refine List.Nodup.of_map withFragmentSuffix ?_
    rw [List.map_map]
    exact hroots
  have hvalidate := validate_of_nodup schema [] hidentifier hnames
  have hresolved : resolved g.config fragments schema =
      fragments.map (·.resolve (resolutionContext g.config schema) fragments) := by
    rw [resolved, hvalidate]
  have hapart : (resolved g.config fragments schema).Pairwise fun r s => Apart r.name s.name := by
    rw [hresolved, List.pairwise_map]
    refine (List.pairwise_map.1 hroots).imp_of_mem fun {f f'} hf hf' hne => ?_
    exact NamingPolicy.not_owns_of_owns (hidentifier f hf) (hidentifier f' hf') (hbare f hf)
      (hbare f' hf') (fun hname => hne (congrArg withFragmentSuffix hname)) hne
  have houtcomes := outcomes_of_apart (c := g.config) hapart fun r _ => .refl r.name .empty
  obtain ⟨result, hresult, -⟩ := GenerationResult.exists_ofOutcomes (h.usable g.config .empty)
  have hbefore : NoFailure (g.pending ++ missingSchemaDiagnostics g.config schema ++
      fragments.flatMap (typenameDiagnostics schema)) := by
    refine (hg.noFailure_pending.append (noFailure_missingSchemaDiagnostics g.config schema)).append ?_
    exact List.forall_mem_flatMap.2 fun f _ => noFailure_typenameDiagnostics schema f
  refine ⟨_, by rw [generate_eq, hresult, hvalidate]; rfl, fun f hf => ?_⟩
  have hmem : (f.resolve (resolutionContext g.config schema) fragments,
      alone g.config schema fragments f) ∈
        outcomes g.config .empty (resolved g.config fragments schema) := by
    rw [houtcomes, hresolved]
    exact List.mem_map_of_mem (List.mem_map_of_mem hf)
  refine GenerationResult.Records.after ?_ hbefore
  refine GenerationResult.records_of_mem (fun _ _ htree => fragment_of_mem_outcomes htree) ?_
    hresult hmem
  rw [map_name_outcomes, map_name_resolved, hvalidate]
  exact hnames

/-- The first of two fragments fails, and the second has the tree that it has by itself. -/
theorem records_generate_twins :
    ∃ result, (({ config := { placement := .flattened } } : Generator).generate
        [Fragment.twins, Fragment.strays] none).1 = .ok result ∧
      ∀ f ∈ [Fragment.twins, Fragment.strays], result.Records f.name
        (alone { placement := .flattened } none [Fragment.twins, Fragment.strays] f) :=
  (Reached.new { placement := .flattened }).records_generate
    ⟨by simp [Fragment.twins_ofDocument, Fragment.strays_ofDocument], nofun⟩
    (by simp [Fragment.twins, Fragment.strays]) (by decide)

end Generator

end FragmentShapes
