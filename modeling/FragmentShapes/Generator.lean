import FragmentShapes.Fragment.Document
import FragmentShapes.Path
import FragmentShapes.Shape.Assembly

/-!
# Runs

A generator reads fragment documents and schema documents and turns fragments into trees of shapes.
What it has to report while reading is kept for the next run. Every run starts with an empty registry
of names, and a fragment that fails stops no other. What ends a step as a whole is an error; the
generator keeps what it had to report before.
-/

namespace FragmentShapes

/-- What a run has produced. -/
structure GenerationResult where
  trees : List ShapeTree
  diagnostics : List Diagnostic
  /-- The names of the fragments without a tree, in the order in which they failed. -/
  failed : List String

namespace GenerationResult

/-- Every fragment has a tree, and nothing grave was reported. -/
def succeeded (r : GenerationResult) : Bool :=
  r.failed.isEmpty && (Diagnostic.ofSeverity .error r.diagnostics).isEmpty

def tree? (r : GenerationResult) (fragment : String) : Option ShapeTree :=
  r.trees.find? (·.fragment = fragment)

/-- The result with the tree of one more fragment in front. -/
def withTree (r : GenerationResult) (tree : ShapeTree) (diagnostics : List Diagnostic) :
    GenerationResult :=
  { r with trees := tree :: r.trees, diagnostics := diagnostics ++ r.diagnostics }

/-- The result with the failure of one more fragment in front. -/
def withFailure (r : GenerationResult) (fragment : String) (diagnostics : List Diagnostic) :
    GenerationResult :=
  { r with failed := fragment :: r.failed, diagnostics := diagnostics ++ r.diagnostics }

/-- The result with what came before any fragment was looked at in front. -/
def after (r : GenerationResult) (diagnostics : List Diagnostic) (failed : List String) :
    GenerationResult :=
  { r with diagnostics := diagnostics ++ r.diagnostics, failed := failed ++ r.failed }

end GenerationResult

/-- Why a step cannot be finished. -/
inductive RunError where
  /-- A fragment document is well formed and yet cannot be read. -/
  | document (fault : Document.Fault)
  /-- Whether a schema file is there cannot be told. -/
  | file (fault : FileFault)
  | typeRef (fault : TypeRef.Fault)
  deriving DecidableEq, Repr

def RunError.message : RunError → String
  | document fault => fault.message
  | file fault => fault.message
  | typeRef fault => fault.message

/-- A generator between two calls. -/
structure Generator where
  config : Config
  registry : NameRegistry Signature := .empty
  /-- What is reported with the next run. -/
  pending : List Diagnostic := []

namespace Generator

/-! ## Reading -/

/-- The fragments of a document, or the diagnostic of one that has none. -/
def readDocument (number : Nat) (text : String) :
    Except Document.Fault (List Fragment × List Diagnostic) :=
  match Fragment.parseDocument text with
  | .error fault =>
    if fault.isSyntactic then
      .ok ([], [.report .invalidSyntax s!"Document {number}: {fault.message}"])
    else .error fault
  | .ok [] => .ok ([], [.report .noFragments s!"Document {number} contains no fragment definitions"])
  | .ok fragments => .ok (fragments, [])

/-- The fragments of documents, the first of which has a number, and what there is to report. -/
def readDocuments (number : Nat) :
    List String → Except Document.Fault (List Fragment) × List Diagnostic
  | [] => (.ok [], [])
  | text :: texts =>
    match readDocument number text with
    | .error fault => (.error fault, [])
    | .ok (fragments, diagnostics) =>
      let (more, moreDiagnostics) := readDocuments (number + 1) texts
      (more.map (fragments ++ ·), diagnostics ++ moreDiagnostics)

/-- Reads fragment documents; those that are not well formed are reported and skipped. -/
def parseFragments (g : Generator) (texts : List String) :
    Except RunError (List Fragment) × Generator :=
  let (fragments, diagnostics) := readDocuments 1 texts
  (fragments.mapError .document, { g with pending := g.pending ++ diagnostics })

/-- The text of a schema file, `none` where there is no file. A name that no file can have is an
error. -/
def readSchemaFile (files : FileSet) (path : Path) : Except FileFault (Option String) :=
  match files.read path with
  | .ok text => .ok (some text)
  | .error .nameTooLong => .error .nameTooLong
  | .error _ => .ok none

/-- The texts of the schema files that are there, each with its path, and what is missing. -/
def readSchemaFiles (files : FileSet) :
    List String → Except FileFault (List (String × String)) × List Diagnostic
  | [] => (.ok [], [])
  | text :: texts =>
    let path := Path.parse text
    match readSchemaFile files path with
    | .error fault => (.error fault, [])
    | .ok document =>
      let (documents, diagnostics) := readSchemaFiles files texts
      match document with
      | some document => (documents.map ((path.toText, document) :: ·), diagnostics)
      | none =>
        (documents,
          .report .schemaFileNotFound s!"Schema file '{path.toText}' not found" :: diagnostics)

/-- Schema texts that come from no file, each with what it is called. -/
def nameSources (number : Nat) : List String → List (String × String)
  | [] => []
  | text :: texts => (s!"<schema {number}>", text) :: nameSources (number + 1) texts

/-- Adds documents to a schema; counts those that could be added as a whole, and reports the others. -/
def loadDocuments (s : Schema) : List (String × String) → Schema × Nat × List Diagnostic
  | [] => (s, 0, [])
  | (origin, text) :: documents =>
    match s.load text with
    | (s, none) =>
      let (s, count, diagnostics) := loadDocuments s documents
      (s, count + 1, diagnostics)
    | (s, some e) =>
      let (s, count, diagnostics) := loadDocuments s documents
      (s, count, .report .invalidSchema s!"{origin}: {e.message}" :: diagnostics)

/-- A name that a definition mentions and no type has. -/
def reportUndefined (reference : String × String) : Diagnostic :=
  .report .typeNotFound s!"Type '{reference.2}' referenced by '{reference.1}' is not defined"

/-- The schema of named documents, if any of them can be read, and what there is to report. -/
def schemaOf (documents : List (String × String)) : Option Schema × List Diagnostic :=
  let (s, count, invalid) := loadDocuments .initial documents
  if count = 0 then (none, invalid)
  else (some s, invalid ++ s.undefinedReferences.map reportUndefined)

/-- The schema of files and texts, if one is wanted, and what there is to report. -/
def readSchema (c : Config) (files : FileSet) (texts : List String) :
    Except FileFault (Option Schema) × List Diagnostic :=
  if c.useSchema then
    match readSchemaFiles files c.schemaFiles with
    | (.error fault, missing) => (.error fault, missing)
    | (.ok documents, missing) =>
      let (schema, diagnostics) := schemaOf (documents ++ nameSources 1 texts)
      (.ok schema, missing ++ diagnostics)
  else (.ok none, [])

/-- Reads the schema of the configured files and of texts. -/
def loadSchema (g : Generator) (files : FileSet) (texts : List String) :
    Except RunError (Option Schema) × Generator :=
  let (schema, diagnostics) := readSchema g.config files texts
  (schema.mapError .file, { g with pending := g.pending ++ diagnostics })

/-! ## Validation -/

/-- A selection on the type should ask for the concrete type of a value. -/
def needsTypename (schema : Option Schema) (f : Fragment) : Bool :=
  match schema with
  | some s =>
    if s.hasType f.onType then s.isAbstract f.onType else f.entries.any Entry.isConditional
  | none => f.entries.any Entry.isConditional

/-- The fragment asks for the concrete type of a value itself. -/
def selectsTypename (f : Fragment) : Bool :=
  f.entries.any (·.name? = some Selection.typenameField)

/-- What there is to report about a fragment that should ask for the concrete type and does not. -/
def typenameDiagnostics (schema : Option Schema) (f : Fragment) : List Diagnostic :=
  if needsTypename schema f && !selectsTypename f then
    [.report .missingTypename
      s!"Fragment '{f.name}' on '{f.onType}' should select {Selection.typenameField} to tell its variants apart"
      (some f.name)]
  else []

/-- The fragments that can be used, what there is to report, and the names of the others. -/
structure Validation where
  valid : List Fragment
  diagnostics : List Diagnostic
  failed : List String

/-- Looks at fragments in order: a name must be an identifier and not be one of those in `seen`. -/
def validate (schema : Option Schema) (seen : List String) : List Fragment → Validation
  | [] => ⟨[], [], []⟩
  | f :: fragments =>
    if !Text.isIdentifier f.name then
      let v := validate schema seen fragments
      let d := Diagnostic.report .invalidFragmentName s!"'{f.name}' is not a valid fragment name"
        (if f.name = "" then none else some f.name)
      ⟨v.valid, d :: v.diagnostics, f.name :: v.failed⟩
    else if seen.contains f.name then
      let v := validate schema seen fragments
      let d := Diagnostic.report .invalidFragmentName
        s!"Fragment '{f.name}' is defined more than once" (some f.name)
      ⟨v.valid, d :: v.diagnostics, f.name :: v.failed⟩
    else
      let v := validate schema (f.name :: seen) fragments
      ⟨f :: v.valid, typenameDiagnostics schema f ++ v.diagnostics, v.failed⟩

/-! ## Generation -/

/-- The trees of resolved fragments one after another, on one registry. An unusable reference ends the
run. -/
def assembleAll (c : Config) (registry : NameRegistry Signature) :
    List ResolvedFragment → Except TypeRef.Fault GenerationResult × NameRegistry Signature
  | [] => (.ok ⟨[], [], []⟩, registry)
  | r :: rest =>
    match r.assemble c registry with
    | (.ok tree, registry) =>
      let (result, registry) := assembleAll c registry rest
      (result.map (·.withTree tree r.diagnostics), registry)
    | (.error (.naming e), registry) =>
      let (result, registry) := assembleAll c registry rest
      let code : DiagnosticCode := if e.isCollision then .namingCollision else .configurationError
      let d := Diagnostic.report code e.message (some r.name)
      (result.map (·.withFailure r.name (r.diagnostics ++ [d])), registry)
    | (.error (.typeRef fault), registry) => (.error fault, registry)

/-- What a run without a schema reports where one would be used. -/
def missingSchemaDiagnostics (c : Config) (schema : Option Schema) : List Diagnostic :=
  if schema.isNone && c.useSchema then
    [.report .missingSchema "No schema available; fields resolve without type information"]
  else []

def resolutionContext (c : Config) (schema : Option Schema) : Selection.Context where
  schema := if c.useSchema then schema else none
  descriptions := c.descriptions

/-- Turns fragments into trees. What was pending is reported first. -/
def generate (g : Generator) (fragments : List Fragment) (schema : Option Schema) :
    Except RunError GenerationResult × Generator :=
  let v := validate schema [] fragments
  let resolved := v.valid.map (·.resolve (resolutionContext g.config schema) v.valid)
  let (result, registry) := assembleAll g.config .empty resolved
  let before := g.pending ++ missingSchemaDiagnostics g.config schema ++ v.diagnostics
  ((result.map (·.after before v.failed)).mapError .typeRef, { g with registry, pending := [] })

/-- Reads fragment documents and a schema, and turns the fragments into trees. -/
def generateFromSources (g : Generator) (files : FileSet) (documents schemas : List String) :
    Except RunError GenerationResult × Generator :=
  match g.parseFragments documents with
  | (.error e, g) => (.error e, g)
  | (.ok fragments, g) =>
    match g.loadSchema files schemas with
    | (.error e, g) => (.error e, g)
    | (.ok schema, g) => g.generate fragments schema

end Generator

end FragmentShapes
