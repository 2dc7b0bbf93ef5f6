import FragmentShapes.Generator
import FragmentShapes.Proofs.Schema.Loading

/-!
# Schemas from documents of which some fail

A generator reports the documents that it cannot load and goes on without them, but not without what they
have declared before they failed. `Generator.loadSchema_eq_usable_iff` says when the schema is that of the
other documents alone.
-/

namespace FragmentShapes.Generator

open Schema (Loading)
open Schema.Loading (usable declarations)

/-- What there is to report of documents that failed, given what the documents of the run are called. -/
def invalidSchemas (origins : List String) (run : List Loading) : List Diagnostic :=
  (origins.zip run).filterMap fun (origin, l) =>
    l.error.map fun e => .report .invalidSchema s!"{origin}: {e.message}"

/-- The generator without its schema files. -/
def withoutSchemaFiles (g : Generator) : Generator :=
  { g with config := { g.config with schemaFiles := [] } }

theorem loadDocuments_eq {s s' : Schema} {taken : List Document.Declaration} (h : s.Extends taken s')
    (hplain : Schema.Plain taken) (documents : List (String × String)) :
    ∃ s'', s.Extends (taken ++ declarations (s'.loadings (documents.map Prod.snd))) s'' ∧
      loadDocuments s' documents =
        (s'', (usable (s'.loadings (documents.map Prod.snd))).length,
          invalidSchemas (documents.map Prod.fst) (s'.loadings (documents.map Prod.snd))) := by
  induction documents generalizing s' taken with
  | nil => exact ⟨s', by simpa [Schema.loadings, declarations] using h, rfl⟩
  | cons d documents ih =>
    obtain ⟨hnext, hplain'⟩ := h.load hplain d.2
    obtain ⟨s'', hextends, heq⟩ := ih hnext hplain'
    refine ⟨s'', by simpa [Schema.loadings, Loading.declarations_cons] using hextends, ?_⟩
    obtain ⟨origin, text⟩ := d
    dsimp only at heq
    simp only [loadDocuments, List.map_cons, Schema.loadings]
    rcases hload : s'.load text with ⟨next, _ | e⟩
    · rw [hload] at heq
      simp only [heq]
      rw [Loading.usable_cons_of_none _ rfl]
      simp [invalidSchemas]
    · rw [hload] at heq
      simp only [heq]
      rw [Loading.usable_cons_of_some _ rfl]
      simp [invalidSchemas]

/-- The documents of a run that starts with the built-in scalars. -/
abbrev runOf (documents : List (String × String)) : List Loading :=
  Schema.initial.loadings (documents.map Prod.snd)

theorem plain_nil : Schema.Plain [] := fun t ht => by cases ht

/-- The schema of documents, if one of them is usable, and the diagnostics of the others. -/
theorem schemaOf_eq (documents : List (String × String)) :
    ∃ s undefined, Schema.initial.Extends (declarations (runOf documents)) s ∧
      (∀ d ∈ undefined, d.code = .typeNotFound) ∧
      schemaOf documents = (if usable (runOf documents) = [] then none else some s,
        invalidSchemas (documents.map Prod.fst) (runOf documents) ++ undefined) := by
  obtain ⟨s, hextends, heq⟩ := loadDocuments_eq (.refl Schema.initial) plain_nil documents
  by_cases hnone : usable (runOf documents) = []
  · refine ⟨s, [], hextends, by simp, ?_⟩
    simp only [schemaOf, heq, hnone, List.length_nil, if_true, List.append_nil]
  · refine ⟨s, s.undefinedReferences.map reportUndefined, hextends, ?_, ?_⟩
    · intro d hd
      obtain ⟨reference, -, rfl⟩ := List.mem_map.1 hd
      rfl
    · simp only [schemaOf, heq, List.length_eq_zero_iff, hnone, if_false]

theorem code_of_mem_invalidSchemas {origins : List String} {run : List Loading} {d : Diagnostic}
    (hd : d ∈ invalidSchemas origins run) : d.code = .invalidSchema := by
  obtain ⟨⟨origin, l⟩, -, hl⟩ := List.mem_filterMap.1 hd
  obtain ⟨e, -, rfl⟩ := Option.map_eq_some_iff.1 hl
  rfl

theorem code_of_mem_readSchemaFiles (files : FileSet) (paths : List String) :
    ∀ d ∈ (readSchemaFiles files paths).2, d.code = .schemaFileNotFound := by
  induction paths with
  | nil => exact List.forall_mem_nil _
  | cons path paths ih =>
    unfold readSchemaFiles
    dsimp only
    split
    · exact List.forall_mem_nil _
    · split
      · exact ih
      · exact List.forall_mem_cons.2 ⟨rfl, ih⟩

theorem map_snd_nameSources (number : Nat) (texts : List String) :
    (nameSources number texts).map Prod.snd = texts := by
  induction texts generalizing number with
  | nil => rfl
  | cons text texts ih => simp [nameSources, ih]

/-- What a generator has loaded, and what it has reported since. -/
theorem loadSchema_eq {g : Generator} {files : FileSet} {documents : List (String × String)}
    {missing : List Diagnostic} (huse : g.config.useSchema = true)
    (hfiles : readSchemaFiles files g.config.schemaFiles = (.ok documents, missing))
    (texts : List String) :
    g.loadSchema files texts =
      (.ok (schemaOf (documents ++ nameSources 1 texts)).1,
        { g with pending :=
            g.pending ++ (missing ++ (schemaOf (documents ++ nameSources 1 texts)).2) }) := by
  simp [loadSchema, readSchema, huse, hfiles, Except.mapError]

/-- The schemas of documents and of the usable ones among them are the same if none is usable or the others
leave nothing behind, and only then. -/
theorem schemaOf_eq_iff {documents others : List (String × String)}
    (hothers : others.map Prod.snd = (usable (runOf documents)).map (·.text)) :
    (schemaOf documents).1 = (schemaOf others).1 ↔
      usable (runOf documents) = [] ∨ Schema.initial.LeavesNothing (runOf documents) := by
  have hrun : runOf others = usable (runOf documents) := by
    rw [runOf, hothers]
    exact Schema.loadings_usable (.refl _) plain_nil (.refl _) (.refl _) _
  obtain ⟨s, _, hs, _, hschema⟩ := schemaOf_eq documents
  obtain ⟨t, _, ht, _, hother⟩ := schemaOf_eq others
  rw [hrun] at ht hother
  have hidem : usable (usable (runOf documents)) = usable (runOf documents) := by
    rw [usable, usable, List.filter_filter]
    simp only [Bool.and_self]
  rw [hschema, hother, hidem]
  by_cases hnone : usable (runOf documents) = []
  · simp [hnone]
  · simp only [hnone, if_false, false_or, Option.some.injEq]
    exact Schema.eq_iff_of_extends hs ht

/-- A generator gets the schema of the usable documents alone if none is usable or the others leave nothing
behind, and only then. -/
theorem loadSchema_fst_eq_iff {g : Generator} {files : FileSet} {documents : List (String × String)}
    {missing : List Diagnostic} (huse : g.config.useSchema = true)
    (hfiles : readSchemaFiles files g.config.schemaFiles = (.ok documents, missing))
    (texts : List String) :
    (g.loadSchema files texts).1 = (g.withoutSchemaFiles.loadSchema files
        ((usable (runOf (documents ++ nameSources 1 texts))).map (·.text))).1 ↔
      usable (runOf (documents ++ nameSources 1 texts)) = [] ∨
        Schema.initial.LeavesNothing (runOf (documents ++ nameSources 1 texts)) := by
  have hother := loadSchema_eq (g := g.withoutSchemaFiles) huse
    (show readSchemaFiles files [] = (.ok [], []) from rfl)
  rw [loadSchema_eq huse hfiles, hother, List.nil_append, Except.ok.injEq]
  exact schemaOf_eq_iff (map_snd_nameSources 1 _)

/-- Of the documents that a generator loads, those that fail are reported, and the others alone load as they
did. The schema is that of the others alone if there are none or the failed ones leave nothing behind, and
only then. -/
theorem loadSchema_eq_usable_iff {g : Generator} {files : FileSet} {texts : List String}
    {documents : List (String × String)} {missing : List Diagnostic} (huse : g.config.useSchema = true)
    (hfiles : readSchemaFiles files g.config.schemaFiles = (.ok documents, missing)) :
    let run := runOf (documents ++ nameSources 1 texts)
    let usableTexts := (usable run).map (·.text)
    (∃ reported, (g.loadSchema files texts).2.pending = g.pending ++ reported ∧
      reported.filter (·.code = .invalidSchema) =
        invalidSchemas ((documents ++ nameSources 1 texts).map Prod.fst) run) ∧
    Schema.initial.loadings usableTexts = usable run ∧
    ((g.loadSchema files texts).1 = (g.withoutSchemaFiles.loadSchema files usableTexts).1 ↔
      usable run = [] ∨ Schema.initial.LeavesNothing run) := by
  intro run usableTexts
  refine ⟨?reported, ?alone, ?same⟩
  case reported =>
    obtain ⟨_, undefined, _, hundefined, hschema⟩ := schemaOf_eq (documents ++ nameSources 1 texts)
    rw [loadSchema_eq huse hfiles, hschema]
    refine ⟨_, rfl, ?_⟩
    have hmissing := code_of_mem_readSchemaFiles files g.config.schemaFiles
    rw [hfiles] at hmissing
    rw [List.filter_append, List.filter_append, List.filter_eq_nil_iff.2, List.filter_eq_self.2,
      List.filter_eq_nil_iff.2, List.nil_append, List.append_nil]
    · intro d hd
      simp [hundefined d hd]
    · intro d hd
      simp [code_of_mem_invalidSchemas hd]
    · intro d hd
      simp [hmissing d hd]
  case alone => exact Schema.loadings_usable (.refl _) plain_nil (.refl _) (.refl _) _
  case same => exact loadSchema_fst_eq_iff huse hfiles texts

/-- A generator with the options that are not given. -/
def standard : Generator := { config := {} }

/-- The second document cannot be read, and it leaves nothing behind. -/
theorem loadSchema_eq_usable_broken :
    (standard.loadSchema .empty ["type A { a: Int }", "type !"]).1 =
      (standard.withoutSchemaFiles.loadSchema .empty ["type A { a: Int }"]).1 := by
  let a : Schema.TypeDefinition := ⟨"A", none, .object [] [⟨"a", .named "Int" true, none, none, []⟩]⟩
  have hrun : runOf ([] ++ nameSources 1 ["type A { a: Int }", "type !"]) =
      [⟨"type A { a: Int }", [.type a], none⟩,
        ⟨"type !", [], some (.document (.unexpected ⟨.punctuator .bang, 1⟩))⟩] := by
    decide +kernel
  obtain ⟨-, -, hiff⟩ := @loadSchema_eq_usable_iff standard .empty ["type A { a: Int }", "type !"] [] []
    rfl rfl
  rw [hrun] at hiff
  exact hiff.2 (.inr ⟨rfl, fun _ _ => rfl⟩)

/-- The second document fails at its second definition, and the first one stays in the schema. -/
theorem loadSchema_leftover :
    (standard.loadSchema .empty ["type A { a: Int }", "type B { b: Int } type A { c: Int }"]).1.map
        (·.map Schema.typeNames) = .ok (some ["String", "Int", "Float", "Boolean", "ID", "A", "B"]) ∧
      (standard.loadSchema .empty
        ["type A { a: Int }", "type B { b: Int } type A { c: Int }"]).2.pending.map (·.message) =
        ["<schema 2>: Type 'A' is already defined"] ∧
      (standard.loadSchema .empty ["type A { a: Int }"]).1.map (·.map Schema.typeNames) =
        .ok (some ["String", "Int", "Float", "Boolean", "ID", "A"]) := by
  have hload (texts : List String) := loadSchema_eq (g := standard) rfl
    (show readSchemaFiles .empty [] = (.ok [], []) from rfl) texts
  simp only [hload]
  refine ⟨by decide +kernel, by decide +kernel, by decide +kernel⟩

end FragmentShapes.Generator
