import FragmentShapes.KeyedList
import FragmentShapes.Naming.Registry
import FragmentShapes.Text.Blank
import FragmentShapes.Text.Identifier
import FragmentShapes.Text.UpperCase
import FragmentShapes.UnknownName

/-!
# Names and places of models

A model is named after the field or variant that it comes from, unless a custom name is given for
that field or for its type. A policy decides which models stay inside their parent and which are
lifted to the global scope.
-/

namespace FragmentShapes

/-- Where models go: all inside their parents, all to the top, or only shared ones to the top. -/
inductive PlacementPolicy where
  | nested | flattened | mixed
  deriving DecidableEq, Repr

namespace PlacementPolicy

def all : List PlacementPolicy := [nested, flattened, mixed]

def name : PlacementPolicy → String
  | nested => "nested"
  | flattened => "flattened"
  | mixed => "mixed"

def ofName? (text : String) : Option PlacementPolicy := all.find? (·.name = text)

/-- The policy of a name in lower case, or what is wrong with the name. -/
def ofName (text : String) : Except UnknownName PlacementPolicy :=
  match ofName? text with
  | some policy => .ok policy
  | none => .error ⟨"NestedModelBehavior", text⟩

end PlacementPolicy

/-- Where a model is emitted. -/
inductive Placement where
  | nested | hoisted
  deriving DecidableEq, Repr

def Placement.name : Placement → String
  | nested => "nested"
  | hoisted => "hoisted"

/-- What decides names and places: custom names by field or type, the policy, and the greatest depth
of a nested model (zero for no limit). -/
structure NamingPolicy where
  custom : KeyedList String := []
  placement : PlacementPolicy := .nested
  maxDepth : Int := 0

namespace NamingPolicy

/-- What the name of a model ends in. -/
def modelSuffix : String := "Model"

/-- What the name of a root model ends in. -/
def fragmentSuffix : String := "Fragment"

def hasSuffix (suffix text : String) : Bool := suffix.toList.isSuffixOf text.toList

/-- The name without the model suffix, unless nothing would be left. -/
def stemPart (name : String) : String :=
  if hasSuffix modelSuffix name && name ≠ modelSuffix then
    String.ofList (name.toList.take (name.length - modelSuffix.length))
  else name

/-- The custom name for a field: by its own name first, then by the name of its type. -/
def customName? (p : NamingPolicy) (field : String) (type : Option String) : Option String :=
  match KeyedList.get? p.custom field with
  | some name => some name
  | none =>
    match type with
    | some t => if t = "" then none else KeyedList.get? p.custom t
    | none => none

/-- The name of a model for a field, before any context. The suffix is not doubled on a custom name. -/
def bareName (p : NamingPolicy) (field : String) (type : Option String) :
    Except NamingError String :=
  match p.customName? field type with
  | some custom =>
    if custom = "" then .error (.emptyCustomName field)
    else .ok (if hasSuffix modelSuffix custom then custom else custom ++ modelSuffix)
  | none => .ok (Text.capitalize field ++ modelSuffix)

/-- A name behind a context; an empty context adds nothing. -/
def inContext (context : Option String) (name : String) : String :=
  match context with
  | some c => if c = "" then name else c ++ "_" ++ name
  | none => name

/-- The name of a model for a field, qualified by a context if one is given. -/
def assignName (p : NamingPolicy) (field : String) (context type : Option String) :
    Except NamingError String := do
  if Text.isBlankText field.toList then throw .emptyFieldName
  let bare ← p.bareName field type
  let name := inContext context bare
  if Text.isIdentifier name then return name else throw (.invalidModelName name)

/-- The name of a fragment with the suffix of root models, which is not doubled. -/
def withFragmentSuffix (fragment : String) : String :=
  if hasSuffix fragmentSuffix fragment then fragment else fragment ++ fragmentSuffix

/-- The name of the root model of a fragment. -/
def rootName (fragment : String) : Except NamingError String :=
  if Text.isIdentifier fragment then .ok (withFragmentSuffix fragment)
  else .error (.invalidFragmentName fragment)

/-- The depth is beyond the limit, if there is one. -/
def exceedsDepth (p : NamingPolicy) (depth : Int) : Bool := p.maxDepth ≠ 0 && p.maxDepth < depth

/-- A model at a depth goes to the top. -/
def hoists (p : NamingPolicy) (depth : Int) (shared : Bool) : Bool :=
  p.exceedsDepth depth || p.placement = .flattened || (p.placement = .mixed && shared)

/-- The scope and the placement of a model at a depth below the root. -/
def assignScope (p : NamingPolicy) (parent : String) (depth : Int) (shared : Bool) :
    String × Placement :=
  if p.hoists depth shared then (globalScope, .hoisted) else (parent, .nested)

/-- The name of the member that holds the fields of one variant. -/
def variantMember (type : String) : String := "as" ++ type

end NamingPolicy

end FragmentShapes
