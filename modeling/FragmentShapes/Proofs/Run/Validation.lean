import FragmentShapes.Proofs.Document.Entries
import FragmentShapes.Proofs.Run.Independence
import FragmentShapes.Proofs.Schema.CommonField
import FragmentShapes.Proofs.Selection.Trail

/-!
# Asking for the concrete type

A fragment on an abstract type should ask for the concrete type of a value. Validation sees to this before
anything is resolved and looks at the fragment's own entries, while a spread or a condition on the
fragment's own type may bring `__typename` to its top level as well. `Selection.Brings` says what an entry
brings there. Main statement: `Generator.Reached.missingTypename_generate`.
-/

namespace FragmentShapes

/-! ## What entries bring to a level -/

namespace Selection

variable {c : Context} {known : List Fragment} {parent : Option String} {name : String}

/-- The occurrence brings a field of the name to the level on which it stands: it is one, or belongs to the
level with one that does. -/
inductive Brings (c : Context) (known : List Fragment) (parent : Option String) (name : String) :
    Occurrence → Prop where
  | field {head : FieldHead} {selection : List Entry} {trail : List String} :
      head.name = name → Brings c known parent name ⟨.field head selection, trail⟩
  | spread {fragment : String} {trail : List String} {g : Fragment} {inner : Entry} :
      Fragment.find? fragment known = some g → fragment ∉ trail → c.narrows parent g.onType = false →
        inner ∈ g.entries → Brings c known parent name ⟨inner, trail ++ [fragment]⟩ →
        Brings c known parent name ⟨.spread fragment, trail⟩
  /-- Only a condition without a label belongs to a level of its own type. -/
  | condition {on : String} {selection : List Entry} {trail : List String} {inner : Entry} :
      parent = some on → inner ∈ selection → Brings c known parent name ⟨inner, trail⟩ →
        Brings c known parent name ⟨.condition on none selection, trail⟩
  | group {selection : List Entry} {trail : List String} {inner : Entry} :
      inner ∈ selection → Brings c known parent name ⟨inner, trail⟩ →
        Brings c known parent name ⟨.group selection, trail⟩

/-- What comes of an occurrence brings a field of the name to the level. -/
def Opening.Brings (c : Context) (known : List Fragment) (parent : Option String) (name : String) :
    Opening → Prop
  | .keep (.field use) => use.1.name = name
  | .keep (.condition ..) => False
  | .inline children => ∃ child ∈ children, Selection.Brings c known parent name child
  | .drop _ => False

theorem exists_brings_all {trail : List String} {entries : List Entry} :
    (∃ o ∈ Occurrence.all trail entries, Brings c known parent name o) ↔
      ∃ entry ∈ entries, Brings c known parent name ⟨entry, trail⟩ := by
  simp [Occurrence.all]

theorem brings_field_iff {head : FieldHead} {selection : List Entry} {trail : List String} :
    Brings c known parent name ⟨.field head selection, trail⟩ ↔ head.name = name := by
  constructor
  · rintro ⟨h⟩
    exact h
  · exact .field

theorem brings_spread_iff {fragment : String} {trail : List String} :
    Brings c known parent name ⟨.spread fragment, trail⟩ ↔
      ∃ g, Fragment.find? fragment known = some g ∧ fragment ∉ trail ∧
        c.narrows parent g.onType = false ∧
        ∃ inner ∈ g.entries, Brings c known parent name ⟨inner, trail ++ [fragment]⟩ := by
  constructor
  · rintro (_ | ⟨hfind, hmem, hnarrows, hinner, h⟩)
    exact ⟨_, hfind, hmem, hnarrows, _, hinner, h⟩
  · rintro ⟨g, hfind, hmem, hnarrows, inner, hinner, h⟩
    exact .spread hfind hmem hnarrows hinner h

theorem brings_condition_iff {on : String} {label : Option String} {selection : List Entry}
    {trail : List String} :
    Brings c known parent name ⟨.condition on label selection, trail⟩ ↔
      (label = none ∧ parent = some on) ∧ ∃ inner ∈ selection, Brings c known parent name ⟨inner, trail⟩ := by
  constructor
  · rintro (_ | _ | ⟨hparent, hinner, h⟩)
    exact ⟨⟨rfl, hparent⟩, _, hinner, h⟩
  · rintro ⟨⟨rfl, hparent⟩, inner, hinner, h⟩
    exact .condition hparent hinner h

theorem brings_group_iff {selection : List Entry} {trail : List String} :
    Brings c known parent name ⟨.group selection, trail⟩ ↔
      ∃ inner ∈ selection, Brings c known parent name ⟨inner, trail⟩ := by
  constructor
  · rintro (_ | _ | _ | ⟨hinner, h⟩)
    exact ⟨_, hinner, h⟩
  · rintro ⟨inner, hinner, h⟩
    exact .group hinner h

theorem brings_opening (o : Occurrence) :
    (opening c known parent o).Brings c known parent name ↔ Brings c known parent name o := by
  obtain ⟨entry, trail⟩ := o
  cases entry with
  | field head selection => exact brings_field_iff.symm
  | condition on label selection =>
    have hvoid : Context.isVoid parent on label = true ↔ label = none ∧ parent = some on := by
      simp [Context.isVoid]
    rw [brings_condition_iff, ← hvoid, opening]
    split_ifs with h
    · rw [Opening.Brings, exists_brings_all, h]
      simp
    · simp [Opening.Brings, h]
  | group selection => rw [brings_group_iff, opening, Opening.Brings, exists_brings_all]
  | spread fragment =>
    rw [brings_spread_iff, opening]
    cases hfind : Fragment.find? fragment known with
    | none => simp [Opening.Brings]
    | some g =>
      dsimp only
      split_ifs with hmem hnarrows
      · simp [Opening.Brings, hmem]
      · simp [Opening.Brings, hnarrows]
      · rw [Opening.Brings, exists_brings_all]
        simp [hmem, hnarrows]

/-- The fields that occurrences open to are those that they bring to the level. -/
theorem Opens.brings_iff {os : List Occurrence} {parts : List Part} {findings : List Finding}
    (h : Opens c known parent os parts findings) :
    name ∈ (partUses parts).map (·.1.name) ↔ ∃ o ∈ os, Brings c known parent name o := by
  induction h with
  | nil => simp [partUses]
  | @keep o os part parts findings hstep _ ih =>
    rw [List.exists_mem_cons_iff, ← ih, ← brings_opening, hstep]
    cases part with
    | field use => simp [partUses, Opening.Brings, eq_comm]
    | condition => simp [partUses, Opening.Brings]
  | @inline o children os inner parts found findings hstep _ _ ihinner ih =>
    have happend : partUses (inner ++ parts) = partUses inner ++ partUses parts :=
      List.filterMap_append
    rw [List.exists_mem_cons_iff, ← ih, ← brings_opening, hstep, Opening.Brings, ← ihinner, happend,
      List.map_append, List.mem_append]
  | drop hstep _ ih =>
    rw [List.exists_mem_cons_iff, ← ih, ← brings_opening, hstep]
    simp [Opening.Brings]

/-- Where there are no conditions, nothing is decided. -/
theorem Decides.uses_eq {parts : List Part} {uses : List Use} {findings : List Finding}
    (h : Decides c known parent parts uses findings) (hnone : parts.any Part.isConditional = false) :
    uses = partUses parts := by
  induction h with
  | nil => rfl
  | field _ ih => exact congrArg (_ :: ·) (ih hnone)
  | fails => cases hnone
  | holds => cases hnone

/-- Every level has the `__typename` that is selected on it, whatever the type. -/
theorem ResolvesFields.typename_mem_iff {groups : KeyedList (List Use)} {fields : List SelectedField}
    {findings : List Finding} (h : ResolvesFields c known parent groups fields findings) :
    typenameField ∈ fields.map (·.info.name) ↔ typenameField ∈ groups.map Prod.fst := by
  induction groups generalizing fields findings with
  | nil =>
    cases h
    rfl
  | cons group groups ih =>
    cases h with
    | @cons _ name uses _ field fields found findings hfield hfields =>
      have hfirst : typenameField ∈ field.toList.map (·.info.name) ↔ typenameField = name := by
        cases hfield with
        | typename => simp
        | defined hname => simp
        | omitted hname => simp [hname.symm]
        | undefined hname => simp
      rw [List.map_append, List.mem_append, hfirst, ih hfields, List.map_cons, List.mem_cons]

/-- A level whose conditions are left open has `__typename` if one of its occurrences brings it there. -/
theorem ResolvesLevel.typename_mem_iff (hpolymorphic : c.isPolymorphic parent = true)
    {os : List Occurrence} {selection : Selection} {findings : List Finding}
    (h : ResolvesLevel c known parent os selection findings) :
    typenameField ∈ selection.names ↔ ∃ o ∈ os, Brings c known parent typenameField o := by
  have hkeys (uses : List Use) :
      typenameField ∈ (useGroups uses).map Prod.fst ↔ typenameField ∈ uses.map (·.1.name) := by
    rw [useGroups, KeyedList.map_fst_groupPairs, List.mem_eraseDups, List.map_map]
    rfl
  cases h with
  | discriminated hopens _ hfields _ =>
    rw [names, hfields.typename_mem_iff, hkeys, hopens.brings_iff]
  | decided hopens hdecided hdecides hfields =>
    rw [hpolymorphic, Bool.and_true] at hdecided
    rw [names, hfields.typename_mem_iff, hkeys, hdecides.uses_eq hdecided, hopens.brings_iff]

end Selection

/-- What a fragment on a type that leaves conditions open selects at its top level includes `__typename` if
one of its entries brings it there. -/
theorem Fragment.typename_mem_names_resolve_iff {c : Selection.Context} (known : List Fragment)
    {f : Fragment} (hpolymorphic : c.isPolymorphic (some f.onType) = true) :
    Selection.typenameField ∈ (f.resolve c known).selection.names ↔
      ∃ entry ∈ f.entries,
        Selection.Brings c known (some f.onType) Selection.typenameField ⟨entry, [f.name]⟩ := by
  obtain ⟨selection, findings, hlevel, hr⟩ := (f.resolve_terminates c known).1
  rw [hr, hlevel.typename_mem_iff hpolymorphic, Selection.exists_brings_all]

/-! ## What validation reports -/

/-- The result has a diagnostic of the code about a fragment of the name. -/
def GenerationResult.Reports (result : GenerationResult) (code : DiagnosticCode) (name : String) : Prop :=
  ∃ d ∈ result.diagnostics, d.code = code ∧ d.fragment = some name

namespace Generator

/-- Of what is reported after validation nothing is about a missing `__typename`. -/
theorem code_ne_of_mem_ofOutcomes {outcomes : List (ResolvedFragment × Outcome)} {result : GenerationResult}
    (h : GenerationResult.ofOutcomes outcomes = .ok result) :
    ∀ d ∈ result.diagnostics, d.code ≠ .missingTypename := by
  have hfindings (r : ResolvedFragment) : ∀ d ∈ r.diagnostics, d.code ≠ .missingTypename := by
    intro d hd
    obtain ⟨finding, -, rfl⟩ := List.mem_map.1 hd
    cases finding <;> nofun
  induction outcomes generalizing result with
  | nil =>
    cases h
    exact List.forall_mem_nil _
  | cons entry outcomes ih =>
    obtain ⟨r, o⟩ := entry
    obtain ⟨rest, hrest, hstep⟩ := GenerationResult.ofOutcomes_cons_eq_ok.1 h
    rcases hstep with ⟨tree, rfl, rfl⟩ | ⟨e, rfl, rfl⟩
    · exact List.forall_mem_append.2 ⟨hfindings r, ih hrest⟩
    · refine List.forall_mem_append.2 ⟨List.forall_mem_append.2 ⟨hfindings r, ?_⟩, ih hrest⟩
      refine List.forall_mem_singleton.2 ?_
      rw [NamingError.report]
      split_ifs
      · intro hcode
        cases hcode
      · intro hcode
        cases hcode

/-- Validation reports a missing `__typename` about valid fragments only. -/
theorem mem_diagnostics_validate (schema : Option Schema) (seen : List String) (fragments : List Fragment)
    {d : Diagnostic} (hcode : d.code = .missingTypename) :
    d ∈ (validate schema seen fragments).diagnostics ↔
      ∃ f ∈ (validate schema seen fragments).valid, d ∈ typenameDiagnostics schema f := by
  have hinvalid {message : String} {fragment : Option String} :
      d ≠ .report .invalidFragmentName message fragment := by
    rintro rfl
    cases hcode
  induction fragments generalizing seen with
  | nil => simp [validate]
  | cons f fragments ih =>
    rw [validate]
    split
    · rw [List.mem_cons, or_iff_right hinvalid]
      exact ih seen
    · split
      · rw [List.mem_cons, or_iff_right hinvalid]
        exact ih seen
      · rw [List.mem_append, List.exists_mem_cons_iff]
        exact or_congr_right (ih _)

theorem exists_mem_typenameDiagnostics {schema : Option Schema} {f : Fragment} {name : String} :
    (∃ d ∈ typenameDiagnostics schema f, d.code = .missingTypename ∧ d.fragment = some name) ↔
      f.name = name ∧ needsTypename schema f = true ∧ selectsTypename f = false := by
  rw [typenameDiagnostics]
  cases needsTypename schema f <;> cases selectsTypename f <;> simp [Diagnostic.report]

variable {g : Generator} {fragments : List Fragment} {schema : Option Schema} {s : Schema}
  {result : GenerationResult} {f : Fragment}

/-- Of what is reported before validation nothing is about a missing `__typename`. -/
theorem Reached.code_ne_of_mem_before (hg : g.Reached) :
    ∀ d ∈ g.pending ++ missingSchemaDiagnostics g.config schema, d.code ≠ .missingTypename := by
  refine List.forall_mem_append.2 ⟨fun d hd heq => ?_, fun d hd => ?_⟩
  · have hreading := hg.ofReading_pending d hd
    rw [heq] at hreading
    cases hreading
  · rw [missingSchemaDiagnostics] at hd
    split_ifs at hd
    · rw [List.mem_singleton.1 hd]
      intro hcode
      cases hcode
    · cases hd

/-- A run reports a missing `__typename` about the valid fragments that need one and do not select it
themselves. -/
theorem Reached.reports_missingTypename_iff (hg : g.Reached)
    (hresult : (g.generate fragments schema).1 = .ok result)
    (hf : f ∈ (validate schema [] fragments).valid) :
    result.Reports .missingTypename f.name ↔
      needsTypename schema f = true ∧ selectsTypename f = false := by
  rw [generate_eq] at hresult
  cases houtcomes : GenerationResult.ofOutcomes
      (outcomes g.config .empty (resolved g.config fragments schema)) with
  | error fault =>
    rw [houtcomes] at hresult
    cases hresult
  | ok rest =>
    rw [houtcomes] at hresult
    cases hresult
    have hmem {d : Diagnostic} (hcode : d.code = .missingTypename) :
        d ∈ g.pending ++ missingSchemaDiagnostics g.config schema ++
            (validate schema [] fragments).diagnostics ++ rest.diagnostics ↔
          ∃ f ∈ (validate schema [] fragments).valid, d ∈ typenameDiagnostics schema f := by
      have hleft : d ∉ g.pending ++ missingSchemaDiagnostics g.config schema :=
        fun hd => hg.code_ne_of_mem_before d hd hcode
      have hright : d ∉ rest.diagnostics := fun hd => code_ne_of_mem_ofOutcomes houtcomes d hd hcode
      rw [List.mem_append, or_iff_left hright, List.mem_append, or_iff_right hleft,
        mem_diagnostics_validate schema [] fragments hcode]
    constructor
    · rintro ⟨d, hd, hcode, hfragment⟩
      obtain ⟨f', hf', hd⟩ := (hmem hcode).1 hd
      obtain ⟨hname, hneeds⟩ := exists_mem_typenameDiagnostics.1 ⟨d, hd, hcode, hfragment⟩
      obtain rfl := List.inj_on_of_nodup_map (nodup_valid schema [] fragments).1 hf' hf hname
      exact hneeds
    · intro hneeds
      obtain ⟨d, hd, hcode, hfragment⟩ := exists_mem_typenameDiagnostics.2 ⟨rfl, hneeds⟩
      exact ⟨d, (hmem hcode).2 ⟨f, hf, hd⟩, hcode, hfragment⟩

/-! ## What validation sees -/

/-- The names that the fragment has at its top level as it is resolved in the run. -/
def topLevelNames (g : Generator) (fragments : List Fragment) (schema : Option Schema) (f : Fragment) :
    List String :=
  (f.resolve (resolutionContext g.config schema) (validate schema [] fragments).valid).selection.names

/-- The entry of the fragment brings `__typename` to its top level as it is resolved in the run. -/
def BringsTypename (g : Generator) (fragments : List Fragment) (schema : Option Schema) (f : Fragment)
    (entry : Entry) : Prop :=
  Selection.Brings (resolutionContext g.config schema) (validate schema [] fragments).valid (some f.onType)
    Selection.typenameField ⟨entry, [f.name]⟩

theorem selectsTypename_eq_false_iff :
    selectsTypename f = false ↔ ∀ entry ∈ f.entries, entry.name? ≠ some Selection.typenameField := by
  simp [selectsTypename]

theorem reports_iff_isAbstract (hg : g.Reached)
    (hresult : (g.generate fragments (some s)).1 = .ok result)
    (hf : f ∈ (validate (some s) [] fragments).valid) (htype : s.hasType f.onType = true) :
    result.Reports .missingTypename f.name ↔ s.isAbstract f.onType = true ∧
      ∀ entry ∈ f.entries, entry.name? ≠ some Selection.typenameField := by
  rw [hg.reports_missingTypename_iff hresult hf, needsTypename, if_pos htype,
    selectsTypename_eq_false_iff]

theorem typename_mem_topLevelNames_iff (huse : g.config.useSchema = true)
    (htype : s.hasType f.onType = true) (habstract : s.isAbstract f.onType = true) :
    Selection.typenameField ∈ g.topLevelNames fragments (some s) f ↔
      ∃ entry ∈ f.entries, g.BringsTypename fragments (some s) f entry := by
  refine Fragment.typename_mem_names_resolve_iff _ ?_
  rw [Selection.isPolymorphic_eq (s := s) (by simp [resolutionContext, huse]) htype, habstract]

/-- In a document only fields have names, so that what brings `__typename` and is not named so is a spread or
a condition. -/
theorem forall_name?_ne_iff (h : f.OfDocument) :
    (∀ entry ∈ f.entries, entry.name? ≠ some Selection.typenameField) ↔
      ∀ entry ∈ f.entries, g.BringsTypename fragments schema f entry →
        (∃ fragment, entry = .spread fragment) ∨
          ∃ selection, entry = .condition f.onType none selection := by
  refine forall₂_congr fun entry hentry => ?_
  have hwritten := h.areWritten.2 entry hentry
  constructor
  · intro hname hbrings
    cases hbrings with
    | field hfield => exact absurd (congrArg some hfield) hname
    | spread => exact .inl ⟨_, rfl⟩
    | condition honType =>
      obtain rfl := Option.some.inj honType
      exact .inr ⟨_, rfl⟩
    | group => exact hwritten.elim
  · intro hbrings hname
    cases entry with
    | field head selection =>
      rcases hbrings (.field (Option.some.inj hname)) with ⟨_, heq⟩ | ⟨_, heq⟩ <;> cases heq
    | condition on label selection =>
      obtain rfl : label = none := hwritten
      cases hname
    | spread => cases hname
    | group => cases hname

/-- A missing `__typename` is reported about a fragment on an abstract type exactly if no entry of its own is
named so. Resolution has one at the top level also where a spread or a condition on the fragment's own type
brings it there: in a document, it is reported exactly if nothing but these brings it. -/
theorem Reached.missingTypename_generate (hg : g.Reached) (huse : g.config.useSchema = true)
    (hresult : (g.generate fragments (some s)).1 = .ok result)
    (hf : f ∈ (validate (some s) [] fragments).valid) (htype : s.hasType f.onType = true) :
    (result.Reports .missingTypename f.name ↔ s.isAbstract f.onType = true ∧
      ∀ entry ∈ f.entries, entry.name? ≠ some Selection.typenameField) ∧
    (s.isAbstract f.onType = true →
      (Selection.typenameField ∈ g.topLevelNames fragments (some s) f ↔
        ∃ entry ∈ f.entries, g.BringsTypename fragments (some s) f entry)) ∧
    (f.OfDocument →
      (result.Reports .missingTypename f.name ↔ s.isAbstract f.onType = true ∧
        ∀ entry ∈ f.entries, g.BringsTypename fragments (some s) f entry →
          (∃ fragment, entry = .spread fragment) ∨
            ∃ selection, entry = .condition f.onType none selection)) := by
  have hreports := reports_iff_isAbstract hg hresult hf htype
  refine ⟨hreports, typename_mem_topLevelNames_iff huse htype, fun hdocument => ?_⟩
  rw [hreports, forall_name?_ne_iff hdocument]

/-- Two fragments on an interface, the first of which asks for the concrete type by way of the second. -/
def nodes : List Fragment :=
  [{ name := "Card", onType := "Node", entries := [.spread "Kind"] },
    { name := "Kind"
      onType := "Node"
      entries := [.field { name := "__typename" } [], .field { name := "id" } []] }]

theorem nodes_readsDocuments : ReadsDocuments nodes (some .feed) where
  fragments f hf :=
    ⟨"fragment Card on Node { ...Kind } fragment Kind on Node { __typename id }", nodes,
      by rw [Fragment.parseDocument_ofList]; decide +kernel, hf⟩
  schema _ hs := Option.some.inj hs ▸ .of_parse Schema.parse_feed

theorem valid_nodes : (validate (some .feed) [] nodes).valid = nodes := rfl

theorem mem_valid_nodes {f : Fragment} (h : f ∈ nodes) : f ∈ (validate (some .feed) [] nodes).valid := by
  rwa [valid_nodes]

/-- The first fragment is reported, the second is not. -/
theorem missingTypename_generate_nodes :
    ∃ result, (({ config := {} } : Generator).generate nodes (some .feed)).1 = .ok result ∧
      result.Reports .missingTypename "Card" ∧ ¬ result.Reports .missingTypename "Kind" := by
  obtain ⟨result, hresult⟩ := nodes_readsDocuments.exists_generate { config := {} }
  have hcard : nodes[0] ∈ nodes := List.getElem_mem _
  have hkind : nodes[1] ∈ nodes := List.getElem_mem _
  have hreports := (Reached.new {}).missingTypename_generate rfl hresult (mem_valid_nodes hcard) (by decide)
  have hsilent := (Reached.new {}).missingTypename_generate rfl hresult (mem_valid_nodes hkind) (by decide)
  refine ⟨result, hresult, hreports.1.2 ⟨by decide, by decide⟩, fun h => ?_⟩
  exact absurd (hsilent.1.1 h).2 (by decide)

/-- It is reported of the first fragment that it lacks `__typename`, although it has one at its top level. -/
theorem missingTypename_overreports :
    ¬ ∀ (g : Generator) (fragments : List Fragment) (s : Schema) (result : GenerationResult) (f : Fragment),
      g.Reached → ReadsDocuments fragments (some s) → g.config.useSchema = true →
      (g.generate fragments (some s)).1 = .ok result → f ∈ (validate (some s) [] fragments).valid →
      s.hasType f.onType = true →
        (result.Reports .missingTypename f.name ↔ s.isAbstract f.onType = true ∧
          Selection.typenameField ∉ g.topLevelNames fragments (some s) f) := by
  intro hclaim
  obtain ⟨result, hresult⟩ := nodes_readsDocuments.exists_generate { config := {} }
  have hcard : nodes[0] ∈ nodes := List.getElem_mem _
  have hvalid := mem_valid_nodes hcard
  have hiff := hclaim _ _ _ _ _ (Reached.new {}) nodes_readsDocuments rfl hresult hvalid (by decide)
  have hreports := (reports_iff_isAbstract (Reached.new {}) hresult hvalid (by decide)).2
    ⟨by decide, by decide⟩
  refine (hiff.1 hreports).2 ((typename_mem_topLevelNames_iff rfl (by decide) (by decide)).2 ?_)
  refine ⟨_, List.mem_singleton_self _, ?_⟩
  rw [BringsTypename, valid_nodes]
  exact .spread (g := nodes[1]) rfl (by decide) (by decide) (List.mem_cons_self) (.field rfl)

end Generator

end FragmentShapes
