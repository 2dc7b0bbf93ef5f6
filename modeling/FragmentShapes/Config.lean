import FragmentShapes.Json
import FragmentShapes.Naming.Policy

/-!
# Configuration

The options of a run, and how they are read from a JSON object. An option has two spellings, in snake
case and in camel case; the camel-case one counts where both are given. Every option is looked at, so
that all that is wrong is reported at once: first by option, then the keys that are no option.
-/

namespace FragmentShapes

/-- The options of a run. -/
structure Config where
  /-- The namespace of the generated code. -/
  target : String := "graphql_generated"
  immutableTypes : Bool := true
  docComments : Bool := true
  useSchema : Bool := true
  schemaFiles : List String := []
  customScalars : KeyedList String := []
  enforceNonNull : Bool := true
  descriptions : Bool := true
  placement : PlacementPolicy := .nested
  /-- The greatest depth of nested models; zero for no limit. -/
  maxDepth : Nat := 0
  customModelNames : KeyedList String := []
  deriving DecidableEq, Repr

namespace Config

/-- What is wrong with the value of an option. -/
inductive Cause where
  | notText
  | emptyText
  | notBool
  | notInteger
  | negative
  | notList
  | notMapping
  | notPolicy
  | unknownPolicy (name : String)
  deriving DecidableEq, Repr

def Cause.message : Cause → String
  | notText => "Input should be a valid string"
  | emptyText => "String should have at least 1 character"
  | notBool => "Input should be a valid boolean"
  | notInteger => "Input should be a valid integer"
  | negative => "Input should be greater than or equal to 0"
  | notList => "Input should be a valid list"
  | notMapping => "Input should be a valid dictionary"
  | notPolicy => "Input should be 'nested', 'flattened' or 'mixed'"
  | unknownPolicy name =>
    s!"Value error, Invalid nested_model_behavior '{name}' (expected one of: nested, flattened, mixed)"

/-- Something wrong with a configuration. -/
inductive Problem where
  | invalid (location : String) (cause : Cause)
  | unknownOption (key : String)
  deriving DecidableEq, Repr

def Problem.message : Problem → String
  | invalid location cause => location ++ ": " ++ cause.message
  | unknownOption key => s!"Unknown configuration option '{key}'"

/-! ## Values -/

/-- A reader of values: the value, or what is wrong, given where the value stands. -/
abbrev Reader (α : Type) := String → Json → Except (List Problem) α

def fail {α : Type} (location : String) (cause : Cause) : Except (List Problem) α :=
  .error [.invalid location cause]

def readText : Reader String
  | _, .string text => .ok text
  | location, _ => fail location .notText

/-- A text that is not empty. -/
def readNonempty : Reader String
  | location, .string text => if text = "" then fail location .emptyText else .ok text
  | location, _ => fail location .notText

def readBool : Reader Bool
  | _, .bool value => .ok value
  | location, _ => fail location .notBool

def readNat : Reader Nat
  | location, .integer value => if value < 0 then fail location .negative else .ok value.toNat
  | location, _ => fail location .notInteger

/-- Both results, or the problems of both. -/
def both {α β : Type} (first : Except (List Problem) α) (second : Except (List Problem) β) :
    Except (List Problem) (α × β) :=
  match first, second with
  | .ok a, .ok b => .ok (a, b)
  | .error p, .ok _ => .error p
  | .ok _, .error q => .error q
  | .error p, .error q => .error (p ++ q)

/-- Texts, the first of which stands at an index of the location. -/
def readTextsFrom (location : String) (index : Nat) :
    List Json → Except (List Problem) (List String)
  | [] => .ok []
  | item :: items =>
    (fun (text, texts) => text :: texts) <$>
      both (readText (location ++ "." ++ Nat.repr index) item)
        (readTextsFrom location (index + 1) items)

/-- A list of texts; a text alone is a list of one. -/
def readTexts : Reader (List String)
  | _, .string text => .ok [text]
  | location, .array items => readTextsFrom location 0 items
  | location, _ => fail location .notList

def readEntries (location : String) :
    List (String × Json) → Except (List Problem) (KeyedList String)
  | [] => .ok []
  | (key, value) :: rest =>
    (fun (text, entries) => (key, text) :: entries) <$>
      both (readText (location ++ "." ++ key) value) (readEntries location rest)

def readMapping : Reader (KeyedList String)
  | location, .object members => readEntries location members
  | location, _ => fail location .notMapping

/-- A policy by its name in any case. -/
def readPolicy : Reader PlacementPolicy
  | location, .string text =>
    match PlacementPolicy.ofName? text.toLower with
    | some policy => .ok policy
    | none => fail location (.unknownPolicy text)
  | location, _ => fail location .notPolicy

/-! ## Options -/

/-- A name in snake case turned into camel case. -/
def camelChars : List Char → List Char
  | '_' :: c :: cs => c.toUpper :: camelChars cs
  | c :: cs => c :: camelChars cs
  | [] => []

def camelCase (name : String) : String := String.ofList (camelChars name.toList)

/-- The key and the value of an option, if it is given. -/
def given? (members : List (String × Json)) (name : String) : Option (String × Json) :=
  match KeyedList.get? members (camelCase name) with
  | some value => some (camelCase name, value)
  | none => (KeyedList.get? members name).map (name, ·)

/-- What has been read, and all that was wrong so far. -/
structure Reading (α : Type) where
  problems : List Problem
  value : α

instance : Monad Reading where
  pure value := ⟨[], value⟩
  bind reading next :=
    let result := next reading.value
    ⟨reading.problems ++ result.problems, result.value⟩

/-- The value of an option, or the default where it is not given or wrong. -/
def option {α : Type} (members : List (String × Json)) (name : String) (default : α)
    (read : Reader α) : Reading α :=
  match given? members name with
  | none => ⟨[], default⟩
  | some (key, value) =>
    match read key value with
    | .ok value => ⟨[], value⟩
    | .error problems => ⟨problems, default⟩

def optionNames : List String :=
  ["namespace", "emit_immutable_value_types", "generate_doc_comments",
    "use_schema_for_type_inference", "schema_file_paths", "custom_scalar_mappings",
    "validate_non_nullable_fields", "include_field_descriptions", "nested_model_behavior",
    "max_nested_depth", "custom_model_name_mappings"]

/-- The keys that no option is read from, in order. -/
def unknownKeys (members : List (String × Json)) : List String :=
  let used := optionNames.filterMap fun name => (given? members name).map Prod.fst
  (members.map Prod.fst).filter (!used.contains ·)

def read (members : List (String × Json)) : Reading Config := do
  let base : Config := {}
  let target ← option members "namespace" base.target readNonempty
  let immutableTypes ← option members "emit_immutable_value_types" base.immutableTypes readBool
  let docComments ← option members "generate_doc_comments" base.docComments readBool
  let useSchema ← option members "use_schema_for_type_inference" base.useSchema readBool
  let schemaFiles ← option members "schema_file_paths" base.schemaFiles readTexts
  let customScalars ← option members "custom_scalar_mappings" base.customScalars readMapping
  let enforceNonNull ← option members "validate_non_nullable_fields" base.enforceNonNull readBool
  let descriptions ← option members "include_field_descriptions" base.descriptions readBool
  let placement ← option members "nested_model_behavior" base.placement readPolicy
  let maxDepth ← option members "max_nested_depth" base.maxDepth readNat
  let customModelNames ← option members "custom_model_name_mappings" base.customModelNames readMapping
  ⟨(unknownKeys members).map .unknownOption,
    { target, immutableTypes, docComments, useSchema, schemaFiles, customScalars, enforceNonNull,
      descriptions, placement, maxDepth, customModelNames }⟩

/-- Why an object is no configuration. -/
inductive Error where
  /-- The object has the key that stands for the configuration itself. -/
  | reservedKey
  | problems (problems : List Problem)
  deriving DecidableEq, Repr

def reservedKey : String := "self"

def Error.message : Error → String
  | reservedKey => s!"GeneratorConfig.__init__() got multiple values for argument '{Config.reservedKey}'"
  | problems ps => "; ".intercalate (ps.map Problem.message)

/-- The configuration of an object, or what is wrong with it. With the reserved key nothing else is
looked at. -/
def ofMembers (members : List (String × Json)) : Except Error Config :=
  if members.any (·.1 = reservedKey) then .error .reservedKey
  else
    let reading := read members
    if reading.problems.isEmpty then .ok reading.value else .error (.problems reading.problems)

def mappingJson (mapping : KeyedList String) : Json :=
  .object (mapping.map fun (key, text) => (key, .string text))

/-- The configuration as an object with every option in snake case. -/
def toMembers (c : Config) : List (String × Json) :=
  [("namespace", .string c.target),
    ("emit_immutable_value_types", .bool c.immutableTypes),
    ("generate_doc_comments", .bool c.docComments),
    ("use_schema_for_type_inference", .bool c.useSchema),
    ("schema_file_paths", .array (c.schemaFiles.map .string)),
    ("custom_scalar_mappings", mappingJson c.customScalars),
    ("validate_non_nullable_fields", .bool c.enforceNonNull),
    ("include_field_descriptions", .bool c.descriptions),
    ("nested_model_behavior", .string c.placement.name),
    ("max_nested_depth", .integer c.maxDepth),
    ("custom_model_name_mappings", mappingJson c.customModelNames)]

def namingPolicy (c : Config) : NamingPolicy :=
  { custom := c.customModelNames, placement := c.placement, maxDepth := c.maxDepth }

end Config

end FragmentShapes
