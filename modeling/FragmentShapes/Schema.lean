import FragmentShapes.Schema.Document

/-!
# Schemas

A schema is the types that documents have defined, in order, behind the scalars that need no
definition, and the types of the three operations. A name is defined once; only a built-in scalar may
be declared again, to no effect.
-/

namespace FragmentShapes

open Schema (TypeDefinition Definition)

/-- A schema. -/
structure Schema where
  types : List TypeDefinition
  query : Option String := none
  mutation : Option String := none
  subscription : Option String := none
  deriving DecidableEq

namespace Schema

def builtinScalars : List String := ["String", "Int", "Float", "Boolean", "ID"]

def initial : Schema where
  types := builtinScalars.map fun name => { name, body := .scalar true }

def type? (s : Schema) (name : String) : Option TypeDefinition := s.types.find? (·.name = name)

def typeNames (s : Schema) : List String := s.types.map (·.name)

/-- Why a document does not become part of a schema as a whole. -/
inductive Error where
  | document (fault : Document.Fault)
  | alreadyDefined (name : String)
  deriving DecidableEq, Repr

def Error.message : Error → String
  | document fault => fault.message
  | alreadyDefined name => s!"Type '{name}' is already defined"

def define (s : Schema) (t : TypeDefinition) : Except Error Schema :=
  match s.type? t.name with
  | none => .ok { s with types := s.types ++ [t] }
  | some existing =>
    if existing.isBuiltin && t.isScalar then .ok s else .error (.alreadyDefined t.name)

/-- Sets the type of one kind of operation. -/
def setRoot (s : Schema) (operation type : String) : Schema :=
  if operation = "query" then { s with query := some type }
  else if operation = "mutation" then { s with mutation := some type }
  else if operation = "subscription" then { s with subscription := some type }
  else s

def apply (s : Schema) : Definition → Except Error Schema
  | .roots bindings => .ok (bindings.foldl (fun s binding => s.setRoot binding.1.text binding.2) s)
  | .type definition _ => s.define definition
  | .directive _ => .ok s

/-- Applies definitions in order up to the first that fails; those before it stay. -/
def applyAll (s : Schema) : List Definition → Schema × Option Error
  | [] => (s, none)
  | definition :: rest =>
    match s.apply definition with
    | .ok s => s.applyAll rest
    | .error e => (s, some e)

def load (s : Schema) (text : String) : Schema × Option Error :=
  match parseDocument text with
  | .ok definitions => s.applyAll definitions
  | .error fault => (s, some (.document fault))

def parse (text : String) : Except Error Schema :=
  match initial.load text with
  | (s, none) => .ok s
  | (_, some e) => .error e

/-- The schema of a text that is given by its characters. -/
theorem parse_ofList (cs : List Char) : parse (String.ofList cs) =
    match ofTokens (Token.lexFrom 1 cs) with
    | .ok definitions =>
      match initial.applyAll definitions with
      | (s, none) => .ok s
      | (_, some e) => .error e
    | .error fault => .error (.document fault) := by
  rw [parse, load, parseDocument, Token.lex_ofList]
  cases ofTokens (Token.lexFrom 1 cs) <;> rfl

end Schema

end FragmentShapes
