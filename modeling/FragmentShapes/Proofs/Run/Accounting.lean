import FragmentShapes.Proofs.Assembly.Faults
import FragmentShapes.Proofs.Assembly.Tree
import FragmentShapes.Proofs.Run.Outcomes

/-!
# Every fragment is accounted for

A run on fragments of documents ends with a result. Each of its fragments has a tree or is among the
failed ones, once for each time that it was given, and each failure is reported once
(`Generator.Reached.accounts_generate`).
-/

namespace FragmentShapes

/-- What is reported is about documents and schemas that are read. -/
def DiagnosticCode.isReading (code : DiagnosticCode) : Bool :=
  [invalidSyntax, noFragments, schemaFileNotFound, invalidSchema, typeNotFound].contains code

/-- What is reported is why a fragment has no tree. -/
def DiagnosticCode.isFailure (code : DiagnosticCode) : Bool :=
  [invalidFragmentName, namingCollision, configurationError].contains code

/-- The diagnostic says why a fragment has no tree. -/
def Diagnostic.isFailure (d : Diagnostic) : Bool := d.code.isFailure

/-- The result accounts for fragments of these names. -/
structure GenerationResult.Accounts (result : GenerationResult) (names : List String) : Prop where
  given : names.Perm (result.trees.map (·.fragment) ++ result.failed)
  order : (result.trees.map (·.fragment)).Sublist names
  failures : result.diagnostics.countP Diagnostic.isFailure = result.failed.length

/-! ## Diagnostics that are no failures -/

/-- None of the diagnostics says why a fragment has no tree. -/
def Diagnostic.NoFailure (ds : List Diagnostic) : Prop := ∀ d ∈ ds, d.isFailure = false

namespace Diagnostic

variable {ds more : List Diagnostic}

theorem NoFailure.nil : NoFailure [] := List.forall_mem_nil _

theorem NoFailure.append (h : NoFailure ds) (hmore : NoFailure more) : NoFailure (ds ++ more) :=
  List.forall_mem_append.2 ⟨h, hmore⟩

theorem NoFailure.report {code : DiagnosticCode} (h : code.isFailure = false) (message : String)
    (fragment : Option String) : NoFailure [Diagnostic.report code message fragment] :=
  List.forall_mem_singleton.2 h

/-- All of the diagnostics are about documents and schemas that were read. -/
def OfReading (ds : List Diagnostic) : Prop := ∀ d ∈ ds, d.code.isReading = true

theorem OfReading.nil : OfReading [] := List.forall_mem_nil _

theorem OfReading.append (h : OfReading ds) (hmore : OfReading more) : OfReading (ds ++ more) :=
  List.forall_mem_append.2 ⟨h, hmore⟩

theorem OfReading.report {code : DiagnosticCode} (h : code.isReading = true) (message : String)
    (fragment : Option String) : OfReading [Diagnostic.report code message fragment] :=
  List.forall_mem_singleton.2 h

theorem OfReading.noFailure (h : OfReading ds) : NoFailure ds := by
  have hcode (code : DiagnosticCode) (hreading : code.isReading = true) : code.isFailure = false := by
    cases code <;> first | rfl | cases hreading
  exact fun d hd => hcode d.code (h d hd)

theorem NoFailure.countP_eq (h : NoFailure ds) : ds.countP isFailure = 0 :=
  List.countP_eq_zero.2 fun d hd => by rw [h d hd]; exact Bool.false_ne_true

end Diagnostic

open Diagnostic (NoFailure OfReading)

theorem ResolvedFragment.noFailure_diagnostics (r : ResolvedFragment) : NoFailure r.diagnostics := by
  intro d hd
  obtain ⟨finding, -, rfl⟩ := List.mem_map.1 hd
  cases finding <;> rfl

namespace GenerationResult

variable {result : GenerationResult} {names : List String}

theorem Accounts.withTree (h : result.Accounts names) {tree : ShapeTree} {ds : List Diagnostic}
    (hds : NoFailure ds) : (result.withTree tree ds).Accounts (tree.fragment :: names) where
  given := h.given.cons tree.fragment
  order := h.order.cons_cons tree.fragment
  failures := by rw [GenerationResult.withTree, List.countP_append, hds.countP_eq, h.failures, Nat.zero_add]

theorem Accounts.withFailure (h : result.Accounts names) (name : String) {ds : List Diagnostic}
    (hds : NoFailure ds) {d : Diagnostic} (hd : d.isFailure = true) :
    (result.withFailure name (ds ++ [d])).Accounts (name :: names) where
  given := (h.given.cons name).trans List.perm_middle.symm
  order := h.order.cons name
  failures := by
    rw [GenerationResult.withFailure, List.countP_append, List.countP_append, hds.countP_eq,
      List.countP_singleton, if_pos hd, h.failures, List.length_cons]
    omega

/-- A tree is for the fragment that it comes from, and other outcomes are names. -/
def Usable (r : ResolvedFragment) (o : Outcome) : Prop :=
  match o with
  | .ok tree => tree.fragment = r.name
  | .error e => ∃ fault, e = .naming fault

/-- Usable outcomes have a result, which accounts for their fragments. -/
theorem exists_ofOutcomes {outcomes : List (ResolvedFragment × Outcome)}
    (h : ∀ entry ∈ outcomes, Usable entry.1 entry.2) :
    ∃ result, ofOutcomes outcomes = .ok result ∧ result.Accounts (outcomes.map (·.1.name)) := by
  induction outcomes with
  | nil => exact ⟨_, rfl, .nil, .slnil, rfl⟩
  | cons entry outcomes ih =>
    obtain ⟨hentry, hrest⟩ := List.forall_mem_cons.1 h
    obtain ⟨result, hresult, haccounts⟩ := ih hrest
    obtain ⟨r, e | tree⟩ := entry
    · obtain ⟨fault, rfl⟩ := hentry
      refine ⟨_, by rw [ofOutcomes, hresult, Except.map], ?_⟩
      refine haccounts.withFailure r.name r.noFailure_diagnostics ?_
      split_ifs <;> rfl
    · have hname : tree.fragment = r.name := hentry
      refine ⟨result.withTree tree r.diagnostics, ?_, ?_⟩
      · rw [ofOutcomes, hresult, Except.map]
      · rw [List.map_cons, ← hname]
        exact haccounts.withTree r.noFailure_diagnostics

end GenerationResult

namespace Generator

/-! ## Validation -/

theorem noFailure_typenameDiagnostics (schema : Option Schema) (f : Fragment) :
    NoFailure (typenameDiagnostics schema f) := by
  rw [typenameDiagnostics]
  split_ifs
  · exact .report (by decide) _ _
  · exact .nil

/-- A fragment is valid or reported once as a failure. -/
theorem accounts_validate (schema : Option Schema) (seen : List String) (fragments : List Fragment) :
    (fragments.map (·.name)).Perm ((validate schema seen fragments).valid.map (·.name) ++
        (validate schema seen fragments).failed) ∧
      (validate schema seen fragments).diagnostics.countP Diagnostic.isFailure =
        (validate schema seen fragments).failed.length := by
  have hinvalid : ∀ message fragment,
      (Diagnostic.report .invalidFragmentName message fragment).isFailure = true := fun _ _ => rfl
  -- Along the fragments; a name that is no identifier or came before fails without being
  -- remembered.
  induction fragments generalizing seen with
  | nil => exact ⟨.nil, rfl⟩
  | cons f fragments ih =>
    rw [validate]
    split
    · obtain ⟨hnames, hcount⟩ := ih seen
      refine ⟨(hnames.cons f.name).trans List.perm_middle.symm, ?_⟩
      rw [List.countP_cons_of_pos (hinvalid _ _), hcount, List.length_cons]
    · split
      · obtain ⟨hnames, hcount⟩ := ih seen
        refine ⟨(hnames.cons f.name).trans List.perm_middle.symm, ?_⟩
        rw [List.countP_cons_of_pos (hinvalid _ _), hcount, List.length_cons]
      · obtain ⟨hnames, hcount⟩ := ih (f.name :: seen)
        refine ⟨hnames.cons f.name, ?_⟩
        rw [List.countP_append, (noFailure_typenameDiagnostics schema f).countP_eq, hcount,
          Nat.zero_add]

/-! ## What is pending -/

/-- The generator is a new one, or comes from one by a call. -/
inductive Reached : Generator → Prop where
  | new (config : Config) : Reached { config }
  | parseFragments {g : Generator} (texts : List String) : Reached g →
      Reached (g.parseFragments texts).2
  | loadSchema {g : Generator} (files : FileSet) (texts : List String) : Reached g →
      Reached (g.loadSchema files texts).2
  | generate {g : Generator} (fragments : List Fragment) (schema : Option Schema) : Reached g →
      Reached (g.generate fragments schema).2

theorem ofReading_readDocument {number : Nat} {text : String} {fragments : List Fragment}
    {ds : List Diagnostic} (h : readDocument number text = .ok (fragments, ds)) : OfReading ds := by
  rw [readDocument] at h
  split at h
  · split_ifs at h
    cases h
    exact .report (by decide) _ _
  · cases h
    exact .report (by decide) _ _
  · cases h
    nofun

theorem ofReading_readDocuments (number : Nat) (texts : List String) :
    OfReading (readDocuments number texts).2 := by
  induction texts generalizing number with
  | nil => exact .nil
  | cons text texts ih =>
    rw [readDocuments]
    split
    · exact .nil
    · next fragments ds hread => exact (ofReading_readDocument hread).append (ih _)

theorem ofReading_readSchemaFiles (files : FileSet) (texts : List String) :
    OfReading (readSchemaFiles files texts).2 := by
  induction texts with
  | nil => exact .nil
  | cons text texts ih =>
    unfold readSchemaFiles
    dsimp only
    split
    · exact .nil
    · split
      · exact ih
      · exact (OfReading.report (by decide) _ _).append ih

theorem ofReading_loadDocuments (s : Schema) (documents : List (String × String)) :
    OfReading (loadDocuments s documents).2.2 := by
  induction documents generalizing s with
  | nil => exact .nil
  | cons document documents ih =>
    rw [loadDocuments]
    split
    · exact ih _
    · exact (OfReading.report (by decide) _ _).append (ih _)

theorem ofReading_schemaOf (documents : List (String × String)) : OfReading (schemaOf documents).2 := by
  have hinvalid := ofReading_loadDocuments .initial documents
  rw [schemaOf]
  dsimp only
  split_ifs
  · exact hinvalid
  · refine hinvalid.append fun d hd => ?_
    obtain ⟨reference, -, rfl⟩ := List.mem_map.1 hd
    rfl

theorem ofReading_readSchema (c : Config) (files : FileSet) (texts : List String) :
    OfReading (readSchema c files texts).2 := by
  have hmissing := ofReading_readSchemaFiles files c.schemaFiles
  rw [readSchema]
  split_ifs
  · split
    · next heq => rwa [heq] at hmissing
    · next documents missing heq =>
      rw [heq] at hmissing
      exact hmissing.append (ofReading_schemaOf _)
  · exact .nil

/-- What waits for the next run is about documents and schemas. -/
theorem Reached.ofReading_pending {g : Generator} (h : g.Reached) : OfReading g.pending := by
  induction h with
  | new config => exact .nil
  | parseFragments texts _ ih => exact ih.append (ofReading_readDocuments 1 texts)
  | @loadSchema g files texts _ ih => exact ih.append (ofReading_readSchema g.config files texts)
  | generate fragments schema _ ih => exact .nil

theorem Reached.noFailure_pending {g : Generator} (h : g.Reached) : NoFailure g.pending :=
  h.ofReading_pending.noFailure

/-! ## Runs -/

theorem noFailure_missingSchemaDiagnostics (c : Config) (schema : Option Schema) :
    NoFailure (missingSchemaDiagnostics c schema) := by
  rw [missingSchemaDiagnostics]
  split_ifs
  · exact .report (by decide) _ _
  · exact .nil

theorem ReadsDocuments.usable {fragments : List Fragment} {schema : Option Schema}
    (h : ReadsDocuments fragments schema) (c : Config) (registry : NameRegistry Signature) :
    ∀ entry ∈ outcomes c registry (resolved c fragments schema),
      GenerationResult.Usable entry.1 entry.2 := by
  rintro ⟨r, o⟩ hentry
  obtain ⟨hr, registry', rfl⟩ := exists_of_mem_outcomes hentry
  cases houtcome : (r.assemble c registry').1 with
  | ok tree => exact ResolvedFragment.fragment_of_assembleWith houtcome
  | error e => exact (h.ofDocuments_resolved c r hr).exists_naming_of_assembleWith houtcome

theorem ReadsDocuments.exists_generate {fragments : List Fragment} {schema : Option Schema}
    (h : ReadsDocuments fragments schema) (g : Generator) :
    ∃ r, (g.generate fragments schema).1 = .ok r := by
  obtain ⟨result, hresult, -⟩ := GenerationResult.exists_ofOutcomes (h.usable g.config .empty)
  exact ⟨_, by rw [generate_eq, hresult]; rfl⟩

/-- A run on fragments of documents has a result, whatever the names of the fragments, the schema and the
configuration: each fragment has a tree or fails, trees come in the order of the fragments and have
distinct names, and each failure is reported once. -/
theorem Reached.accounts_generate {g : Generator} (hg : g.Reached) {fragments : List Fragment}
    {schema : Option Schema} (h : ReadsDocuments fragments schema) :
    ∃ result, (g.generate fragments schema).1 = .ok result ∧
      result.Accounts (fragments.map (·.name)) ∧ (result.trees.map (·.fragment)).Nodup := by
  obtain ⟨result, hresult, haccounts⟩ := GenerationResult.exists_ofOutcomes
    (h.usable g.config .empty)
  rw [map_name_outcomes, map_name_resolved] at haccounts
  obtain ⟨hnames, hcount⟩ := accounts_validate schema [] fragments
  have hbefore : NoFailure (g.pending ++ missingSchemaDiagnostics g.config schema) :=
    hg.noFailure_pending.append (noFailure_missingSchemaDiagnostics g.config schema)
  refine ⟨_, by rw [generate_eq, hresult]; rfl, ⟨?_, ?_, ?_⟩, ?_⟩
  · -- the failed ones of validation stand in front of those of assembly
    have hswap := hnames.trans (haccounts.given.append_right _)
    rw [List.append_assoc] at hswap
    exact hswap.trans (List.perm_append_comm.append_left _)
  · exact haccounts.order.trans ((valid_sublist schema [] fragments).map _)
  · show List.countP Diagnostic.isFailure (g.pending ++ missingSchemaDiagnostics g.config schema ++
        (validate schema [] fragments).diagnostics ++ result.diagnostics) =
      ((validate schema [] fragments).failed ++ result.failed).length
    rw [List.countP_append, List.countP_append, hbefore.countP_eq, hcount, haccounts.failures,
      List.length_append, Nat.zero_add]
  · exact haccounts.order.nodup (nodup_valid schema [] fragments).1

/-- One of two fragments of one name fails, whatever was reported about the document before. -/
theorem accounts_generate_card :
    ∃ result, ((({ config := {} } : Generator).parseFragments [""]).2.generate
        [Fragment.card, Fragment.card] none).1 = .ok result ∧
      result.Accounts ["Card", "Card"] ∧ (result.trees.map (·.fragment)).Nodup :=
  ((Reached.new {}).parseFragments [""]).accounts_generate
    ⟨by simp [Fragment.card_ofDocument], nofun⟩

end Generator

end FragmentShapes
