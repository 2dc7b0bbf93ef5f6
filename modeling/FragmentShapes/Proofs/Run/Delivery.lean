import FragmentShapes.Proofs.Run.Accounting

/-!
# What a sequence of calls delivers

A generator is used for one call after another, and keeps what it has to report and a registry of names
between them. A call that reads documents adds to what is to be reported, and a run delivers all of it and
begins a new registry. So nothing is lost or delivered twice, and what a call returns does not depend on
the calls before it, whether they failed or not.

The main statement is `Call.runAll_delivers`.
-/

namespace FragmentShapes

/-- A call of a generator. -/
inductive Call where
  | parseFragments (texts : List String)
  | loadSchema (files : FileSet) (texts : List String)
  | generate (fragments : List Fragment) (schema : Option Schema)

/-- What a call returns. -/
inductive Answer where
  | fragments (outcome : Except RunError (List Fragment))
  | schema (outcome : Except RunError (Option Schema))
  | result (outcome : Except RunError GenerationResult)

namespace Answer

/-- The diagnostics of a result. -/
def delivered : Answer → List Diagnostic
  | result (.ok r) => r.diagnostics
  | _ => []

/-- The answer but for the diagnostics of a result. -/
def silent : Answer → Answer
  | result outcome => result (outcome.map ({ · with diagnostics := [] }))
  | answer => answer

end Answer

namespace Call

/-- A call, and the generator behind it. -/
def run (g : Generator) : Call → Answer × Generator
  | parseFragments texts => ((g.parseFragments texts).map .fragments id)
  | loadSchema files texts => ((g.loadSchema files texts).map .schema id)
  | generate fragments schema => ((g.generate fragments schema).map .result id)

/-- Calls one after another on one generator. -/
def runAll (g : Generator) : List Call → List Answer × Generator
  | [] => ([], g)
  | call :: calls =>
    let (answer, g) := call.run g
    let (answers, g) := runAll g calls
    (answer :: answers, g)

/-- The fragments of a run come from documents, and its schema does if there is one. -/
def ReadsDocuments : Call → Prop
  | generate fragments schema => Generator.ReadsDocuments fragments schema
  | _ => True

/-- What a call finds to report itself. -/
def reports (c : Config) : Call → List Diagnostic
  | parseFragments texts => (Generator.readDocuments 1 texts).2
  | loadSchema files texts => (Generator.readSchema c files texts).2
  | generate fragments schema =>
    Generator.missingSchemaDiagnostics c schema ++
      (Generator.validate schema [] fragments).diagnostics ++
      match (Generator.assembleAll c .empty (Generator.resolved c fragments schema)).1 with
      | .ok r => r.diagnostics
      | .error _ => []

/-! ## One call -/

variable {call : Call}

theorem run_config (g : Generator) (call : Call) : (call.run g).2.config = g.config := by
  cases call <;> rfl

/-- A run on fragments of documents ends with a result. -/
theorem exists_assembleAll {fragments : List Fragment} {schema : Option Schema}
    (h : Generator.ReadsDocuments fragments schema) (c : Config) :
    ∃ r, (Generator.assembleAll c .empty (Generator.resolved c fragments schema)).1 = .ok r := by
  obtain ⟨r, hr, -⟩ := GenerationResult.exists_ofOutcomes (h.usable c .empty)
  exact ⟨r, by rw [Generator.assembleAll_fst, hr]⟩

theorem generate_eq_ok (g : Generator) {fragments : List Fragment} {schema : Option Schema}
    {r : GenerationResult}
    (h : (Generator.assembleAll g.config .empty
      (Generator.resolved g.config fragments schema)).1 = .ok r) :
    (g.generate fragments schema).1 =
      .ok (r.after (g.pending ++ Generator.missingSchemaDiagnostics g.config schema ++
          (Generator.validate schema [] fragments).diagnostics)
        (Generator.validate schema [] fragments).failed) := by
  rw [Generator.generate_eq, ← Generator.assembleAll_fst, h]
  rfl

/-- A call delivers what was pending and what it finds itself, or leaves it pending. -/
theorem delivered_append_pending (h : call.ReadsDocuments) (g : Generator) :
    (call.run g).1.delivered ++ (call.run g).2.pending = g.pending ++ call.reports g.config := by
  cases call with
  | parseFragments texts => rfl
  | loadSchema files texts => rfl
  | generate fragments schema =>
    obtain ⟨r, hr⟩ := exists_assembleAll h g.config
    have hanswer : ((generate fragments schema).run g).1 = .result (g.generate fragments schema).1 := rfl
    have hpending : ((generate fragments schema).run g).2.pending = [] := rfl
    rw [hanswer, hpending, generate_eq_ok g hr, reports, hr, List.append_nil]
    show g.pending ++ _ ++ _ ++ r.diagnostics = _
    simp only [List.append_assoc]

/-- Apart from the diagnostics, a call returns the same on each generator of a configuration. -/
theorem silent_run (g : Generator) (call : Call) :
    (call.run g).1.silent = (call.run { config := g.config }).1.silent := by
  cases call with
  | parseFragments texts => rfl
  | loadSchema files texts => rfl
  | generate fragments schema =>
    have hanswer (g : Generator) :
        ((generate fragments schema).run g).1 = .result (g.generate fragments schema).1 := rfl
    rw [hanswer, hanswer, Generator.generate_eq, Generator.generate_eq]
    cases GenerationResult.ofOutcomes
      (Generator.outcomes g.config .empty (Generator.resolved g.config fragments schema)) with
    | error fault => rfl
    | ok r => rfl

/-- What a call finds to report is all that a new generator has to report after it. -/
theorem reports_eq (h : call.ReadsDocuments) (c : Config) :
    call.reports c = (call.run { config := c }).1.delivered ++ (call.run { config := c }).2.pending :=
  (delivered_append_pending h { config := c }).symm

/-! ## Sequences of calls -/

theorem runAll_cons (g : Generator) (call : Call) (calls : List Call) :
    runAll g (call :: calls) =
      ((call.run g).1 :: (runAll (call.run g).2 calls).1, (runAll (call.run g).2 calls).2) := rfl

theorem runAll_delivered {calls : List Call} (h : ∀ call ∈ calls, call.ReadsDocuments) (g : Generator) :
    (runAll g calls).1.flatMap Answer.delivered ++ (runAll g calls).2.pending =
      g.pending ++ calls.flatMap (reports g.config) := by
  induction calls generalizing g with
  | nil => simp [runAll]
  | cons call calls ih =>
    obtain ⟨hcall, hcalls⟩ := List.forall_mem_cons.1 h
    have hrest := ih hcalls (call.run g).2
    rw [run_config] at hrest
    rw [runAll_cons, List.flatMap_cons, List.flatMap_cons, List.append_assoc, hrest,
      ← List.append_assoc, delivered_append_pending hcall, List.append_assoc]

theorem runAll_silent (g : Generator) (calls : List Call) :
    (runAll g calls).1.map Answer.silent =
      calls.map fun call => (call.run { config := g.config }).1.silent := by
  induction calls generalizing g with
  | nil => rfl
  | cons call calls ih =>
    rw [runAll_cons, List.map_cons, List.map_cons, ih, run_config, silent_run]

/-- Whatever is called on a generator, and in whatever order: the diagnostics of the results, and then
those that are pending, are those that the calls have found, one call after another; these are the ones
that a new generator has after the same call. Everything else that a call returns is what it returns on a
new generator, and a run returns a result. -/
theorem runAll_delivers (c : Config) {calls : List Call} (h : ∀ call ∈ calls, call.ReadsDocuments) :
    (runAll { config := c } calls).1.flatMap Answer.delivered ++
        (runAll { config := c } calls).2.pending = calls.flatMap (reports c) ∧
      (∀ call ∈ calls, call.reports c =
        (call.run { config := c }).1.delivered ++ (call.run { config := c }).2.pending) ∧
      (runAll { config := c } calls).1.map Answer.silent =
        calls.map (fun call => (call.run { config := c }).1.silent) ∧
      ∀ fragments schema, generate fragments schema ∈ calls →
        ∃ r, ((generate fragments schema).run { config := c }).1 = .result (.ok r) := by
  refine ⟨runAll_delivered h _, fun call hcall => reports_eq (h call hcall) c, runAll_silent _ calls, ?_⟩
  intro fragments schema hcall
  obtain ⟨r, hr⟩ := Generator.ReadsDocuments.exists_generate (h _ hcall) { config := c }
  exact ⟨r, congrArg Answer.result hr⟩

/-- An empty document, then a run that is given a fragment twice, then a run that is given it once. -/
def cardCalls : List Call :=
  [parseFragments [""], generate [Fragment.card, Fragment.card] none, generate [Fragment.card] none]

theorem cardCalls_readsDocuments : ∀ call ∈ cardCalls, call.ReadsDocuments := by
  have hcards (n : Nat) : ∀ f ∈ List.replicate n Fragment.card, f.OfDocument := by
    intro f hf
    rw [List.eq_of_mem_replicate hf]
    exact Fragment.card_ofDocument
  simp only [cardCalls, List.forall_mem_cons]
  exact ⟨trivial, ⟨hcards 2, nofun⟩, ⟨hcards 1, nofun⟩, nofun⟩

/-- The second run reports neither the document nor the failure of the first run again. -/
theorem runAll_delivers_card :
    (runAll { config := {} } cardCalls).1.flatMap Answer.delivered ++
        (runAll { config := {} } cardCalls).2.pending =
      [.report .noFragments "Document 1 contains no fragment definitions",
        .report .missingSchema "No schema available; fields resolve without type information",
        .report .invalidFragmentName "Fragment 'Card' is defined more than once" (some "Card"),
        .report .missingSchema "No schema available; fields resolve without type information"] := by
  rw [(runAll_delivers {} cardCalls_readsDocuments).1]
  decide +kernel

end Call

end FragmentShapes
