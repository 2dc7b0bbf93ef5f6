import FragmentShapes.KeyedList
import FragmentShapes.TypeRef

/-!
# Target types

What a type reference becomes in generated code: an annotation, and for each level whether it may be
absent. An annotation is optional if its text says so; the text may come from a custom mapping, so
that this is recognised and not assumed.
-/

namespace FragmentShapes

/-- The target of a type reference. -/
inductive Target where
  | leaf (name text : String) (nullable : Bool)
  | list (element : Target) (text : String) (nullable : Bool)
  deriving DecidableEq, Repr, Inhabited

namespace Target

def name : Target → String
  | leaf name _ _ => name
  | list element _ _ => element.name

def text : Target → String
  | leaf _ text _ => text
  | list _ text _ => text

def isNullable : Target → Bool
  | leaf _ _ nullable => nullable
  | list _ _ nullable => nullable

/-- The annotation, blanks aside, is `None`, ends in `| None`, or begins with `None |` or `Optional[`. -/
def isOptional (text : String) : Bool :=
  let cs := text.toList.filter (· != ' ')
  cs == "None".toList || "|None".toList.isSuffixOf cs || "None|".toList.isPrefixOf cs ||
    "Optional[".toList.isPrefixOf cs || "typing.Optional[".toList.isPrefixOf cs

/-- The annotation with a mark that the value may be absent, unless it has one. -/
def makeOptional (text : String) : String :=
  if isOptional text then text else text ++ " | None"

def ofBase (base : String) (nullable : Bool) : Target :=
  leaf base (if nullable then makeOptional base else base) (nullable || isOptional base)

def listOf (element : Target) (nullable : Bool) : Target :=
  let whole := "list[" ++ element.text ++ "]"
  list element (if nullable then makeOptional whole else whole) nullable

end Target

/-- The representations of scalars that need no mapping. -/
def defaultScalars : KeyedList String :=
  [("String", "str"), ("ID", "str"), ("Int", "int"), ("Float", "float"), ("Boolean", "bool"),
    ("DateTime", "datetime.datetime"), ("Date", "datetime.date"), ("Time", "datetime.time")]

/-- How scalars are represented, and whether a type that may not be null counts as such. -/
structure ScalarMapping where
  custom : KeyedList String := []
  enforceNonNull : Bool := true

namespace ScalarMapping

/-- The representation of a scalar: the custom one, else the default one, else text. -/
def base (custom : KeyedList String) (scalar : String) : String :=
  match KeyedList.get? custom scalar with
  | some text => text
  | none => (KeyedList.get? defaultScalars scalar).getD "str"

/-- The target of a scalar or of a list of it. The items of a list are never absent. -/
def ofScalar (custom : KeyedList String) (scalar : String) (isList nullable : Bool) : Target :=
  let representation := base custom scalar
  if isList then .listOf (.ofBase representation false) nullable
  else .ofBase representation nullable

/-- The target of a type reference. A shape takes the place of the scalar at its base. -/
def ofTypeRef (m : ScalarMapping) (shape : Option String) : TypeRef → Target
  | .named name nullable =>
    let representation :=
      match shape with
      | some path => if path = "" then base m.custom name else path
      | none => base m.custom name
    .ofBase representation (nullable || !m.enforceNonNull)
  | .list element nullable => .listOf (m.ofTypeRef shape element) nullable

end ScalarMapping

end FragmentShapes
