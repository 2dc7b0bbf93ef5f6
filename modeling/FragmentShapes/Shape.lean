import FragmentShapes.Literal
import FragmentShapes.Naming.Policy
import FragmentShapes.Target

/-!
# Shapes

What a fragment becomes: a tree of shapes, each a record or a union of variants with its members. A
member whose value is an object refers to another shape by its path.
-/

namespace FragmentShapes

/-- What a member stands for. -/
inductive MemberRole where
  | field
  /-- The member that tells which variant a value is. -/
  | discriminant
  /-- The fields of a value whose concrete type is `type`. -/
  | variant (type : String)
  deriving DecidableEq, Repr

namespace MemberRole

def name : MemberRole → String
  | field => "field"
  | discriminant => "discriminant"
  | variant _ => "variant"

def variantType? : MemberRole → Option String
  | variant type => some type
  | _ => none

end MemberRole

/-- A member of a shape. -/
structure Member where
  name : String
  type : TypeRef
  target : Target
  /-- The path of the shape of an object. -/
  shape : Option String := none
  deprecation : Option Deprecation := none
  description : Option String := none
  role : MemberRole := .field

def Member.isOptional (m : Member) : Bool := m.target.isNullable

/-- A record, or with variants a union. -/
structure Shape where
  name : String
  scope : String
  placement : Placement
  isDiscriminated : Bool
  members : List Member
  sourceType : Option String
  depth : Nat := 0
  /-- The path of the shape that this one belongs to, wherever it is emitted. -/
  parent : Option String := none
  doc : Option String := none

namespace Shape

def path (s : Shape) : String := qualify s.scope s.name

def kindName (s : Shape) : String := if s.isDiscriminated then "discriminated_union" else "record"

def member? (s : Shape) (name : String) : Option Member := s.members.find? (·.name = name)

def variants (s : Shape) : List Member := s.members.filter (·.role.variantType?.isSome)

end Shape

/-- The shapes of one fragment, each after those it refers to; the root is the last. -/
structure ShapeTree where
  fragment : String
  onType : String
  target : String
  root : Shape
  shapes : List Shape
  immutableTypes : Bool := true
  docComments : Bool := true

namespace ShapeTree

def shape? (t : ShapeTree) (path : String) : Option Shape := t.shapes.find? (·.path = path)

def named (t : ShapeTree) (name : String) : List Shape := t.shapes.filter (·.name = name)

/-- The shapes that are emitted inside the one at a path. -/
def nestedIn (t : ShapeTree) (path : String) : List Shape := t.shapes.filter (·.scope = path)

end ShapeTree

end FragmentShapes
