/-!
# Type references

A reference names a type, or is a list of another reference; each level may be null or not. A
description of a reference gives its levels from the outside in, with more freedom than a reference
has: it may be unusable, and says then what is missing.
-/

namespace FragmentShapes

/-- A reference to a type: `T`, `T!`, `[T]`, `[T!]!` and so on. -/
inductive TypeRef where
  | named (name : String) (nullable : Bool)
  | list (element : TypeRef) (nullable : Bool)
  deriving DecidableEq, Repr, Inhabited

namespace TypeRef

def isList : TypeRef → Bool
  | named .. => false
  | list .. => true

def isNullable : TypeRef → Bool
  | named _ nullable => nullable
  | list _ nullable => nullable

def baseName : TypeRef → String
  | named name _ => name
  | list element _ => element.baseName

/-- The notation of a level that may not be null. -/
def marker (nullable : Bool) : String := if nullable then "" else "!"

/-- The reference in the notation of the schema language. -/
def notationText : TypeRef → String
  | named name nullable => name ++ marker nullable
  | list element nullable => "[" ++ element.notationText ++ "]" ++ marker nullable

/-- What makes a description unusable. -/
inductive Fault where
  | missingElement
  | missingName
  deriving DecidableEq, Repr

def Fault.message : Fault → String
  | missingElement => "List type reference requires an element type"
  | missingName => "Named type reference requires a name"

/-- One level of a description. -/
structure Level where
  name : String := ""
  nullable : Bool := true
  isList : Bool := false
  deriving DecidableEq, Repr

/-- A described reference: its outermost level and the levels inside it, outermost first. -/
structure Description where
  outer : Level
  inner : List Level
  deriving DecidableEq, Repr

/-- Reads levels, the inner ones first. A named level ignores what is inside it, and a list its name. -/
def ofLevels (outer : Level) : List Level → Except Fault TypeRef
  | [] =>
    if outer.isList then .error .missingElement
    else if outer.name = "" then .error .missingName
    else .ok (named outer.name outer.nullable)
  | next :: inner => do
    let element ← ofLevels next inner
    if outer.isList then return list element outer.nullable
    else if outer.name = "" then .error .missingName
    else return named outer.name outer.nullable

namespace Description

def toRef (d : Description) : Except Fault TypeRef := ofLevels d.outer d.inner

/-- The description with another nullability at the outermost level. -/
def withNullable (d : Description) (nullable : Bool) : Description :=
  { d with outer := { d.outer with nullable } }

end Description

/-- The reference to a type by name, which must not be empty. -/
def ofName (name : String) (nullable : Bool) : Except Fault TypeRef :=
  ofLevels { name, nullable } []

end TypeRef

end FragmentShapes
