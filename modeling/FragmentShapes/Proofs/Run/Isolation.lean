import FragmentShapes.Proofs.Run.Independence

/-!
# Fragments that fail

A fragment that fails stops no other, but it leaves in the registry what it has registered so far. Where
nothing of that is under a path of a later fragment, the others come to the same as in a run that does not
assemble it (`Generator.about_generateSkipping`); where something is, they may fail because of it.
-/

namespace FragmentShapes

open NamingPolicy (Apart)

namespace Generator

/-- The run in which a fragment is looked at and resolved, and stays there for spreads, but is not
assembled. What was found while it was resolved is left out. -/
def generateSkipping (g : Generator) (name : String) (fragments : List Fragment)
    (schema : Option Schema) : Except RunError GenerationResult :=
  let v := validate schema [] fragments
  let others := (resolved g.config fragments schema).filter (·.name ≠ name)
  let before := g.pending ++ missingSchemaDiagnostics g.config schema ++ v.diagnostics
  ((assembleAll g.config .empty others).1.map (·.after before v.failed)).mapError .typeRef

variable {c : Config}

/-- Without the only entry of its name, the entries in front of it and behind it are left. -/
theorem filter_name_ne {α : Type} (name : α → String) {front back : List α} {x : α}
    (h : ((front ++ x :: back).map name).Nodup) :
    (front ++ x :: back).filter (name · ≠ name x) = front ++ back := by
  have hx : ¬ decide (name x ≠ name x) = true := by simp
  rw [List.filter_append, List.filter_cons, if_neg hx, ← List.filter_append]
  exact List.filter_eq_self.2 fun y hy =>
    decide_eq_true (name_ne_of_nodup h y hy)

/-- Without a fragment that leaves nothing under paths of later ones, the others have the same
outcomes. -/
theorem outcomes_filter {registry : NameRegistry Signature} {before after : List ResolvedFragment}
    {r : ResolvedFragment} (hnodup : ((before ++ r :: after).map (·.name)).Nodup)
    (hleaves : ∀ other ∈ after, (registryAfter c registry before).AgreesOn other.name
      (registryAfter c registry (before ++ [r]))) :
    outcomes c registry ((before ++ r :: after).filter (·.name ≠ r.name)) =
      (outcomes c registry (before ++ r :: after)).filter (·.1.name ≠ r.name) := by
  have hregistry : registryAfter c registry (before ++ [r]) =
      (r.assemble c (registryAfter c registry before)).2 := List.foldl_concat ..
  have hothers : (before ++ r :: after).filter (·.name ≠ r.name) = before ++ after :=
    filter_name_ne _ hnodup
  have hwhole := map_name_outcomes c registry (before ++ r :: after)
  rw [outcomes_append, outcomes, ← hregistry, outcomes_congr hleaves] at hwhole ⊢
  rw [hothers, outcomes_append]
  let entryName (entry : ResolvedFragment × Outcome) : String := entry.1.name
  exact (filter_name_ne entryName (hwhole ▸ hnodup)).symm

theorem nodup_name_resolved (c : Config) (fragments : List Fragment) (schema : Option Schema) :
    ((resolved c fragments schema).map (·.name)).Nodup := by
  rw [map_name_resolved]
  exact (nodup_valid schema [] fragments).1

/-- Whatever becomes of a fragment, the trees and failures of all others are those of the run that does not
assemble it, if what it leaves in the registry is under no path of a later fragment. -/
theorem about_generateSkipping {g : Generator} {fragments : List Fragment} {schema : Option Schema}
    {before after : List ResolvedFragment} {r : ResolvedFragment}
    (hresolved : resolved g.config fragments schema = before ++ r :: after)
    (hleaves : ∀ other ∈ after, (registryAfter g.config .empty before).AgreesOn other.name
      (registryAfter g.config .empty (before ++ [r])))
    {result : GenerationResult} (hresult : (g.generate fragments schema).1 = .ok result) :
    ∃ result', g.generateSkipping r.name fragments schema = .ok result' ∧
      result'.about (· ≠ r.name) = result.about (· ≠ r.name) := by
  have hnodup := nodup_name_resolved g.config fragments schema
  rw [generate_eq] at hresult
  cases hall : GenerationResult.ofOutcomes
      (outcomes g.config .empty (resolved g.config fragments schema)) with
  | error fault =>
    rw [hall] at hresult
    cases hresult
  | ok whole =>
    rw [hall] at hresult
    cases hresult
    obtain ⟨others, hothers, habout⟩ := GenerationResult.about_ofOutcomes (· ≠ r.name)
      (fun r tree hmem => fragment_of_mem_outcomes hmem) hall
    rw [hresolved] at hnodup
    rw [hresolved, ← outcomes_filter hnodup hleaves, ← hresolved] at hothers
    refine ⟨_, by rw [generateSkipping, assembleAll_fst, hothers]; rfl, ?_⟩
    rw [GenerationResult.about_after, GenerationResult.about_after, habout]

/-- A generator that lifts all models to the top. -/
def flattening : Generator := { config := { placement := .flattened } }

/-- The first fragment fails, and the second has nothing to do with it. -/
theorem about_generateSkipping_twins :
    ∃ result result', (flattening.generate [Fragment.twins, Fragment.strays] none).1 = .ok result ∧
      result.failed = ["Card"] ∧
      flattening.generateSkipping "Card" [Fragment.twins, Fragment.strays] none = .ok result' ∧
      result'.about (· ≠ "Card") = result.about (· ≠ "Card") := by
  have hfailed : (flattening.generate [Fragment.twins, Fragment.strays] none).1.map (·.failed) =
      .ok ["Card"] := by
    decide +kernel
  obtain ⟨result, hresult, hcard⟩ := exists_of_map_eq_ok hfailed
  let resolve (f : Fragment) : ResolvedFragment :=
    f.resolve (resolutionContext flattening.config none) [Fragment.twins, Fragment.strays]
  have hresolved : resolved flattening.config [Fragment.twins, Fragment.strays] none =
      [] ++ resolve Fragment.twins :: [resolve Fragment.strays] := rfl
  have hapart : Apart "Card" "Strays" :=
    NamingPolicy.not_owns_of_owns (by decide) (by decide) (by decide) (by decide) (by decide) (by decide)
  obtain ⟨result', hresult', habout⟩ := about_generateSkipping hresolved
    (List.forall_mem_singleton.2 ((resolve Fragment.twins).agreesOn_of_apart _ .empty hapart)) hresult
  exact ⟨result, result', hresult, hcard, hresult', habout⟩

end Generator

/-- A fragment in which two models are named alike at the top. The first of them stays registered. -/
def Fragment.post : Fragment where
  name := "Post"
  onType := "Article"
  entries :=
    [.field { name := "author" } [.field { name := "card" } [.field { name := "id" } []]],
      .field { name := "author_Card" } [.field { name := "name" } []]]

/-- A fragment with a model of the same name. -/
def Fragment.postAuthor : Fragment where
  name := "Post_Author"
  onType := "User"
  entries := [.field { name := "card" } [.field { name := "name" } []]]

/-- A fragment fails because of what a failed one has left: with the assembly of the first one skipped, it
has a tree. -/
theorem Generator.generateSkipping_post :
    (flattening.generate [Fragment.post, Fragment.postAuthor] none).1.map
        (fun result => (result.trees.map (·.fragment), result.failed)) =
        .ok ([], ["Post", "Post_Author"]) ∧
      (flattening.generateSkipping "Post" [Fragment.post, Fragment.postAuthor] none).map
        (fun result => (result.trees.map (·.fragment), result.failed)) =
        .ok (["Post_Author"], []) := by
  decide +kernel

end FragmentShapes
