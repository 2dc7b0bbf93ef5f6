import FragmentShapes.Proofs.Assembly.Style
import FragmentShapes.Proofs.Run.Accounting

/-!
# Runs and style

Some options are about the look of the generated code only: its namespace, whether its types are
immutable, comments, descriptions, how scalars are represented, and whether what may not be null counts as
such. Two runs that differ in these have the same failures, the same diagnostics and, apart from style,
the same trees (`Generator.generate_restyle`).
-/

namespace FragmentShapes

/-- The options that are about the look of the generated code. -/
structure Style where
  target : String
  immutableTypes : Bool
  docComments : Bool
  customScalars : KeyedList String
  enforceNonNull : Bool
  descriptions : Bool

/-- The configuration with other options for the look of the generated code. -/
def Config.restyle (c : Config) (style : Style) : Config :=
  { c with
    target := style.target
    immutableTypes := style.immutableTypes
    docComments := style.docComments
    customScalars := style.customScalars
    enforceNonNull := style.enforceNonNull
    descriptions := style.descriptions }

namespace GenerationResult

/-- The result with plain trees. -/
def plain (r : GenerationResult) : GenerationResult := { r with trees := r.trees.map ShapeTree.plain }

/-- The plain result of outcomes is the result of plain outcomes, of fragments for which the same was
found. -/
theorem plain_ofOutcomes {f : ResolvedFragment → ResolvedFragment} (hname : ∀ r, (f r).name = r.name)
    (hdiagnostics : ∀ r, (f r).diagnostics = r.diagnostics) (os : List (ResolvedFragment × Outcome)) :
    (ofOutcomes os).map plain = ofOutcomes (os.map fun (r, o) => (f r, o.map ShapeTree.plain)) := by
  induction os with
  | nil => rfl
  | cons entry os ih =>
    obtain ⟨r, outcome⟩ := entry
    rw [List.map_cons]
    cases outcome with
    | ok tree =>
      show (ofOutcomes ((r, .ok tree) :: os)).map plain = ofOutcomes ((f r, .ok tree.plain) :: _)
      rw [ofOutcomes, ofOutcomes, ← ih, hdiagnostics]
      cases ofOutcomes os <;> rfl
    | error e =>
      cases e with
      | naming fault =>
        show (ofOutcomes ((r, .error (.naming fault)) :: os)).map plain =
          ofOutcomes ((f r, .error (.naming fault)) :: _)
        rw [ofOutcomes, ofOutcomes, ← ih, hdiagnostics, hname]
        cases ofOutcomes os <;> rfl
      | typeRef fault => rfl

end GenerationResult

namespace Generator

def restyle (g : Generator) (style : Style) : Generator := { g with config := g.config.restyle style }

/-- Fragments assembled one after another have the same outcomes apart from style. -/
theorem plain_outcomes {c c' : Config} (h : c'.namingPolicy = c.namingPolicy)
    (registry : NameRegistry Signature) (rs : List ResolvedFragment) :
    (outcomes c registry rs).map (fun (r, o) => (r.plain, o.map ShapeTree.plain)) =
      (outcomes c' registry (rs.map ResolvedFragment.plain)).map
        fun (r, o) => (r, o.map ShapeTree.plain) := by
  induction rs generalizing registry with
  | nil => rfl
  | cons r rs ih =>
    have hpolicy : c'.assemblyOptions.policy = c.assemblyOptions.policy := h
    obtain ⟨htree, hregistry⟩ := r.plain_assembleWith hpolicy registry
    rw [List.map_cons, outcomes, outcomes, List.map_cons, List.map_cons, ih]
    dsimp only [ResolvedFragment.assemble]
    rw [htree, hregistry]

/-- What a fragment resolves to depends on style in the descriptions of fields only. -/
theorem map_plain_resolved (c : Config) (style : Style) (fragments : List Fragment)
    (schema : Option Schema) :
    (resolved (c.restyle style) fragments schema).map ResolvedFragment.plain =
      (resolved c fragments schema).map ResolvedFragment.plain := by
  rw [resolved, resolved, List.map_map, List.map_map]
  refine List.map_congr_left fun f _ => ?_
  rw [Function.comp_apply, Function.comp_apply, Fragment.plain_resolve, Fragment.plain_resolve]
  rfl

/-- A run in another style has the same result apart from style. -/
theorem plain_generate_restyle (g : Generator) (style : Style) (fragments : List Fragment)
    (schema : Option Schema) :
    ((g.restyle style).generate fragments schema).1.map GenerationResult.plain =
      (g.generate fragments schema).1.map GenerationResult.plain := by
  have houtcomes (c c' : Config) (h : c'.namingPolicy = c.namingPolicy) (rs : List ResolvedFragment) :
      (GenerationResult.ofOutcomes (outcomes c .empty rs)).map GenerationResult.plain =
        GenerationResult.ofOutcomes ((outcomes c' .empty (rs.map ResolvedFragment.plain)).map
          fun (r, o) => (r, o.map ShapeTree.plain)) := by
    rw [GenerationResult.plain_ofOutcomes (f := ResolvedFragment.plain) (fun _ => rfl) fun _ => rfl,
      plain_outcomes h]
  have hsame : (GenerationResult.ofOutcomes (outcomes (g.config.restyle style) .empty
        (resolved (g.config.restyle style) fragments schema))).map GenerationResult.plain =
      (GenerationResult.ofOutcomes (outcomes g.config .empty
        (resolved g.config fragments schema))).map GenerationResult.plain := by
    rw [houtcomes (g.config.restyle style) g.config rfl, houtcomes g.config g.config rfl,
      map_plain_resolved]
  have hcommute (x : Except TypeRef.Fault GenerationResult) (before : List Diagnostic)
      (failed : List String) :
      ((x.map (·.after before failed)).mapError RunError.typeRef).map GenerationResult.plain =
        ((x.map GenerationResult.plain).map (·.after before failed)).mapError RunError.typeRef := by
    cases x <;> rfl
  -- validation and what is reported about a missing schema do not look at style
  have hmissing : missingSchemaDiagnostics (g.config.restyle style) schema =
      missingSchemaDiagnostics g.config schema := rfl
  have hconfig : (g.restyle style).config = g.config.restyle style := rfl
  rw [generate_eq, generate_eq, hcommute, hcommute, hconfig, hsame, hmissing]
  rfl

/-- Two runs on fragments of documents that differ in style have the same failures, the same diagnostics
and the same trees apart from style: the same shapes in the same order, with the same names, places and
members, of the same types and with the same references. -/
theorem generate_restyle (g : Generator) (style : Style) {fragments : List Fragment}
    {schema : Option Schema} (h : ReadsDocuments fragments schema) :
    ∃ r r', (g.generate fragments schema).1 = .ok r ∧
      ((g.restyle style).generate fragments schema).1 = .ok r' ∧
      r'.failed = r.failed ∧ r'.diagnostics = r.diagnostics ∧
      r'.trees.map ShapeTree.plain = r.trees.map ShapeTree.plain := by
  obtain ⟨r, hr⟩ := h.exists_generate g
  obtain ⟨r', hr'⟩ := h.exists_generate (g.restyle style)
  have hplain := plain_generate_restyle g style fragments schema
  rw [hr, hr'] at hplain
  have hsame : r'.plain = r.plain := Except.ok.inj hplain
  obtain ⟨htrees, hdiagnostics, hfailed⟩ := GenerationResult.mk.inj hsame
  exact ⟨r, r', hr, hr', hfailed, hdiagnostics, htrees⟩

/-- Representations of scalars, comments and descriptions, for a fragment that fails in part. -/
theorem generate_restyle_card :
    ∃ r r', (({ config := {} } : Generator).generate [Fragment.card, Fragment.card] none).1 = .ok r ∧
      ((({ config := {} } : Generator).restyle
          ⟨"app.models", false, false, [("String", "Optional[str]")], false, false⟩).generate
        [Fragment.card, Fragment.card] none).1 = .ok r' ∧
      r'.failed = r.failed ∧ r'.diagnostics = r.diagnostics ∧
      r'.trees.map ShapeTree.plain = r.trees.map ShapeTree.plain :=
  generate_restyle { config := {} } _ ⟨by simp [Fragment.card_ofDocument], nofun⟩

end Generator

end FragmentShapes
