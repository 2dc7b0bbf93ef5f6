import FragmentShapes.Schema

/-!
# Questions to a schema

Which types there are and which of them implement or contain which, which field a name means as seen
from a type, and whether the types of two fields go together.
-/

namespace FragmentShapes.Schema

def body? (s : Schema) (name : String) : Option TypeBody := (s.type? name).map (·.body)

def hasType (s : Schema) (name : String) : Bool := (s.type? name).isSome

def isObject (s : Schema) (name : String) : Bool :=
  match s.body? name with
  | some (.object ..) => true
  | _ => false

def isInterface (s : Schema) (name : String) : Bool :=
  match s.body? name with
  | some (.interface ..) => true
  | _ => false

def isUnion (s : Schema) (name : String) : Bool :=
  match s.body? name with
  | some (.union _) => true
  | _ => false

/-- The name is that of an interface or a union. -/
def isAbstract (s : Schema) (name : String) : Bool :=
  match s.type? name with
  | some t => t.isAbstract
  | none => false

/-- The name is that of an object that declares the interface among its own. -/
def implements (s : Schema) (name interface : String) : Bool :=
  match s.body? name with
  | some (.object interfaces _) => interfaces.contains interface
  | _ => false

/-- The objects that declare an interface, in order of definition. -/
def implementers (s : Schema) (interface : String) : List String :=
  s.typeNames.filter fun name => s.implements name interface

/-- The members of a union; none for any other name. -/
def unionMembersOf (s : Schema) (name : String) : List String :=
  match s.body? name with
  | some (.union members) => members
  | _ => []

/-- The concrete types that a value of the type can have. -/
def possibleTypes (s : Schema) (name : String) : List String :=
  if s.isUnion name then s.unionMembersOf name
  else if s.isInterface name then s.implementers name
  else if s.isObject name then [name]
  else []

/-- A value of the second type may stand for one of the first: the same name, or an interface and an
object that implements it, at the same depth of lists. Of one name, the second may be null only if
the first may. -/
def compatible (s : Schema) : TypeRef → TypeRef → Bool
  | .list first _, .list second _ => s.compatible first second
  | .named first firstNullable, .named second secondNullable =>
    if first ≠ second then
      (s.isInterface first && s.implements second first) ||
        (s.isInterface second && s.implements first second)
    else firstNullable || !secondNullable
  | _, _ => false

/-! ## Fields -/

/-- The field, if its type is one that the schema knows. -/
def known (s : Schema) (field : FieldDefinition) : Option FieldDefinition :=
  if s.hasType field.type.baseName then some field else none

def interfaceField? (s : Schema) (interface name : String) : Option FieldDefinition :=
  match s.body? interface with
  | some (.interface _ fields) => (fields.find? (·.name = name)).bind s.known
  | _ => none

/-- The field that all members of a union agree on: each of them has one, and that of the first goes
together with each other. -/
def commonField (s : Schema) (lookup : String → Option FieldDefinition) :
    List String → Option FieldDefinition
  | [] => none
  | first :: rest =>
    (lookup first).bind fun f =>
      if rest.all fun member => (lookup member).any fun g => s.compatible f.type g.type then some f
      else none

def without (name : String) (types : List TypeDefinition) : List TypeDefinition :=
  types.filter (·.name ≠ name)

theorem length_without_lt {name : String} {types : List TypeDefinition} {t : TypeDefinition}
    (h : types.find? (·.name = name) = some t) : (without name types).length < types.length := by
  refine List.length_filter_lt_length_iff_exists.2 ⟨t, List.mem_of_find?_eq_some h, ?_⟩
  simpa using List.find?_some h

/-- The definition of a field as seen from a type that is among the available ones. Objects answer
with their own field, else with that of the first interface that has it; interfaces with their own;
unions with what their members have in common. A type inside itself has no fields, so that a type
being looked at is no longer available. -/
def fieldAmong (s : Schema) (available : List TypeDefinition) (type field : String) :
    Option FieldDefinition :=
  match h : available.find? (·.name = type) with
  | none => none
  | some t =>
    have := length_without_lt h
    match t.body with
    | .object interfaces _ =>
      match t.ownField? field with
      | some own => s.known own
      | none => interfaces.findSome? (s.interfaceField? · field)
    | .interface .. => (t.ownField? field).bind s.known
    | .union members =>
      s.commonField (fun member => s.fieldAmong (without type available) member field) members
    | _ => none
termination_by available.length

/-- The definition of a field as seen from a type. -/
def field? (s : Schema) (type field : String) : Option FieldDefinition :=
  s.fieldAmong s.types type field

/-- Adds the fields whose names are not there yet. -/
def addMissing (fields more : List FieldDefinition) : List FieldDefinition :=
  more.foldl (fun fields f => if fields.any (·.name = f.name) then fields else fields ++ [f]) fields

/-- The fields that an interface declares; none for any other name. -/
def interfaceFields (s : Schema) (name : String) : List FieldDefinition :=
  match s.body? name with
  | some (.interface _ fields) => fields
  | _ => []

/-- All fields of a type that is among the available ones: an object's own before those of its
interfaces, and for a union those of its first member that all members have. -/
def fieldsAmong (s : Schema) (available : List TypeDefinition) (type : String) :
    List FieldDefinition :=
  match h : available.find? (·.name = type) with
  | none => []
  | some t =>
    have := length_without_lt h
    match t.body with
    | .object interfaces fields =>
      interfaces.foldl (fun fields name => addMissing fields (s.interfaceFields name)) fields
    | .interface _ fields => fields
    | .union (first :: _) =>
      (s.fieldsAmong (without type available) first).filterMap fun f =>
        s.field? type f.name
    | _ => []
termination_by available.length

/-- All fields that can be selected on a type. -/
def fields (s : Schema) (type : String) : List FieldDefinition := s.fieldsAmong s.types type

/-! ## Names without a type -/

/-- The names of types that a definition mentions in its interfaces, fields or members. -/
def mentions (t : TypeDefinition) : List String :=
  match t.body with
  | .object interfaces fields => interfaces ++ fields.map (·.type.baseName)
  | .interface interfaces fields => interfaces ++ fields.map (·.type.baseName)
  | .union members => members
  | _ => []

/-- The names that definitions mention and no type has, each once for each definition. -/
def undefinedReferences (s : Schema) : List (String × String) :=
  s.types.flatMap fun t =>
    ((mentions t).filter (!s.hasType ·)).eraseDups.map fun name => (t.name, name)

end FragmentShapes.Schema
