import FragmentShapes.Fragment.Unfold
import FragmentShapes.Schema.Lookup
import FragmentShapes.Selection.Finding

/-!
# Levels of a selection

Which fields and conditions make up one level of a selection on a type. Opened spreads and groups
belong to the level that they stand on; a condition on the level's own type says nothing and vanishes.
On a type whose values have several concrete types, a spread on another type acts as a condition.
On a concrete type the conditions are decided: their fields belong to the level, or can never be met.
-/

namespace FragmentShapes.Selection

/-- What resolution looks up: a schema if one is in use, and whether descriptions are kept. -/
structure Context where
  schema : Option Schema
  descriptions : Bool := true

namespace Context

/-- Values of the type may have several concrete types: no schema says otherwise. -/
def isPolymorphic (c : Context) (parent : Option String) : Bool :=
  match c.schema, parent with
  | some s, some type => !s.hasType type || s.isAbstract type
  | _, _ => true

/-- A spread of a fragment on `onType` acts as a condition on that type. -/
def narrows (c : Context) (parent : Option String) (onType : String) : Bool :=
  parent ≠ some onType && c.schema.any (·.hasType onType) && c.isPolymorphic parent

/-- A condition holds for the values of a concrete type; one on an unknown type may hold. -/
def applies (c : Context) (parent : Option String) (on : String) : Bool :=
  match c.schema, parent with
  | some s, some type =>
    on = type || !s.hasType on || s.implements type on && s.isInterface on ||
      (s.unionMembersOf on).contains type
  | _, _ => true

/-- The concrete types that a condition adds variants for: its own, or those that an abstract one
shares with the type around it. -/
def variantTypes (c : Context) (parent : Option String) (on : String) : List String :=
  match c.schema with
  | none => [on]
  | some s =>
    if s.isAbstract on then
      match parent with
      | some type =>
        if s.hasType type then
          (s.possibleTypes on).filter fun t => (s.possibleTypes type).contains t
        else s.possibleTypes on
      | none => s.possibleTypes on
    else [on]

/-- The condition says nothing on a level of its own type, unless it has a label. -/
def isVoid (parent : Option String) (on : String) (label : Option String) : Bool :=
  label = none && parent = some on

end Context

/-- A member of a level: a field, or a condition. -/
inductive Item where
  | field (head : FieldHead) (children : List Node)
  | condition (on : String) (children : List Node)

namespace Item

def isConditional : Item → Bool
  | field .. => false
  | condition .. => true

end Item

abbrev FieldUse := FieldHead × List Node

def fieldUses (items : List Item) : List FieldUse :=
  items.filterMap fun
    | .field head children => some (head, children)
    | .condition .. => none

mutual

def expandNode (c : Context) (parent : Option String) : Node → Noted (List Item)
  | .field head children => pure [.field head children]
  | .condition on label children =>
    if Context.isVoid parent on label then expand c parent children
    else pure [.condition on children]
  | .group children => expand c parent children
  | .opened _ onType body =>
    if c.narrows parent onType then pure [.condition onType [body ()]]
    else expandNode c parent (body ())
  | .cycle chain => do
    .note (.spreadCycle chain)
    return []
  | .unknown fragment => do
    .note (.unknownSpread fragment)
    return []

def expand (c : Context) (parent : Option String) : List Node → Noted (List Item)
  | [] => pure []
  | node :: nodes => do
    let items ← expandNode c parent node
    let more ← expand c parent nodes
    return items ++ more

end

mutual

/-- The fields that a node adds to a level whose conditions are decided. What `expand` finds on this
level is not found again; the levels of the conditions are looked at here. On such a level no opened
spread acts as a condition. -/
def settleNode (c : Context) (parent : Option String) : Node → Noted (List FieldUse)
  | .field head children => pure [(head, children)]
  | .condition on label children =>
    if Context.isVoid parent on label then settle c parent children
    else if c.applies parent on then do
      let _ ← expand c parent children
      settle c parent children
    else pure []
  | .group children => settle c parent children
  | .opened _ _ body => settleNode c parent (body ())
  | .cycle _ => pure []
  | .unknown _ => pure []

/-- The fields of a level whose conditions are decided, in order. -/
def settle (c : Context) (parent : Option String) : List Node → Noted (List FieldUse)
  | [] => pure []
  | node :: nodes => do
    let fields ← settleNode c parent node
    let more ← settle c parent nodes
    return fields ++ more

end

end FragmentShapes.Selection
