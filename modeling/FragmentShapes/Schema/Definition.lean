import FragmentShapes.Literal
import FragmentShapes.TypeRef

/-!
# Type definitions

What a schema says of a type: objects and interfaces have fields, unions members, enumerations
values, input objects fields of their own, and scalars nothing more.
-/

namespace FragmentShapes.Schema

/-- An argument, or a field of an input object. -/
structure InputValue where
  name : String
  type : TypeRef
  default : Option Literal := none
  description : Option String := none
  deriving DecidableEq

/-- Input values by name: a name given twice keeps its first place and takes its last definition. -/
def InputValue.distinct (values : List InputValue) : List InputValue :=
  (KeyedList.ofPairs (values.map fun value => (value.name, value))).map Prod.snd

/-- A field of an object or of an interface. -/
structure FieldDefinition where
  name : String
  type : TypeRef
  deprecation : Option Deprecation := none
  description : Option String := none
  arguments : List InputValue := []
  deriving DecidableEq

/-- A value of an enumeration. -/
structure EnumValue where
  name : String
  description : Option String := none
  deprecation : Option Deprecation := none
  deriving DecidableEq

/-- The kind of a type, with what belongs to it. -/
inductive TypeBody where
  | object (interfaces : List String) (fields : List FieldDefinition)
  /-- An interface. The interfaces that it implements itself add no fields to it. -/
  | interface (interfaces : List String) (fields : List FieldDefinition)
  /-- A union. The first member speaks for the fields that all members have. -/
  | union (members : List String)
  | enum (values : List EnumValue)
  | input (fields : List InputValue)
  | scalar (builtin : Bool)
  deriving DecidableEq

/-- A named type. -/
structure TypeDefinition where
  name : String
  description : Option String := none
  body : TypeBody
  deriving DecidableEq

namespace TypeDefinition

/-- Interfaces and unions: a value has another, concrete type. -/
def isAbstract (t : TypeDefinition) : Bool :=
  match t.body with
  | .interface .. => true
  | .union _ => true
  | _ => false

def isBuiltin (t : TypeDefinition) : Bool :=
  match t.body with
  | .scalar builtin => builtin
  | _ => false

def isScalar (t : TypeDefinition) : Bool :=
  match t.body with
  | .scalar _ => true
  | _ => false

/-- The fields that an object or interface declares itself. -/
def ownFields (t : TypeDefinition) : List FieldDefinition :=
  match t.body with
  | .object _ fields => fields
  | .interface _ fields => fields
  | _ => []

def ownField? (t : TypeDefinition) (name : String) : Option FieldDefinition :=
  t.ownFields.find? (·.name = name)

/-- A value of an enumeration; of a repeated name the first. -/
def enumValue? (t : TypeDefinition) (name : String) : Option EnumValue :=
  match t.body with
  | .enum values => values.find? (·.name = name)
  | _ => none

end TypeDefinition

end FragmentShapes.Schema
