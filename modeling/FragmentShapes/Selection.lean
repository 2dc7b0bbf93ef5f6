import FragmentShapes.Literal
import FragmentShapes.TypeRef

/-!
# Resolved selections

What a selection comes to: fields with their final types, and for a type whose values have several
concrete types the fields that only one of these has, as variants. The signature of a selection tells
apart the shapes that it can have in generated code.
-/

namespace FragmentShapes

/-- A resolved field, apart from the selection under it. -/
structure FieldInfo where
  name : String
  type : TypeRef
  deprecation : Option Deprecation := none
  /-- The type comes from a schema, or is that of a field that every type has. -/
  isResolved : Bool := true
  description : Option String := none

mutual

/-- A resolved selection on a type, which may be unknown. -/
structure Selection where
  typeName : Option String
  fields : List SelectedField
  variants : List Variant

/-- A field with its selection, if it has one. -/
structure SelectedField where
  info : FieldInfo
  selection : Option Selection

/-- The fields that are selected on one concrete type only. -/
structure Variant where
  typeName : String
  selection : Selection

end

namespace Selection

def isDiscriminated (s : Selection) : Bool := !s.variants.isEmpty

def field? (s : Selection) (name : String) : Option SelectedField :=
  s.fields.find? (·.info.name = name)

def variant? (s : Selection) (type : String) : Option Variant :=
  s.variants.find? (·.typeName = type)

end Selection

/-- The structure of a selection: its fields, then its variants, then its type. -/
inductive Signature where
  | leaf (name type : String) (deprecated : Bool) (rest : Signature)
  | object (name type : String) (deprecated : Bool) (selection rest : Signature)
  | variant (typeName : String) (selection rest : Signature)
  | on (typeName : Option String)
  deriving DecidableEq, Repr, Inhabited

mutual

def Selection.signature : Selection → Signature
  | ⟨typeName, fields, variants⟩ =>
    SelectedField.signatures fields (Variant.signatures variants (.on typeName))

/-- The signature of fields in front of another one. -/
def SelectedField.signatures : List SelectedField → Signature → Signature
  | [], rest => rest
  | ⟨info, none⟩ :: fields, rest =>
    .leaf info.name info.type.notationText info.deprecation.isSome
      (SelectedField.signatures fields rest)
  | ⟨info, some selection⟩ :: fields, rest =>
    .object info.name info.type.notationText info.deprecation.isSome selection.signature
      (SelectedField.signatures fields rest)

/-- The signature of variants in front of another one. -/
def Variant.signatures : List Variant → Signature → Signature
  | [], rest => rest
  | ⟨typeName, selection⟩ :: variants, rest =>
    .variant typeName selection.signature (Variant.signatures variants rest)

end

end FragmentShapes
