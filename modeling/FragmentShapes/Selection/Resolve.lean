import FragmentShapes.Selection
import FragmentShapes.Selection.Expand

/-!
# Resolving fragments

A selection is resolved level by level. Fields of one name are merged: the first gives the place, the
first type that the document states and the first deprecation count, and the selections under them are
put together. A field takes its type from the schema; where that is not known, from the document, else
it is text.
-/

namespace FragmentShapes

namespace Selection

/-- The field that tells the concrete type of a value. -/
def typenameField : String := "__typename"

def typenameType : TypeRef := .named "String" false

/-- The type of a field about which nothing is known. -/
def untyped : TypeRef := .named "String" true

/-- The definition of a field on a type, if a schema is in use and knows both. -/
def lookUp (c : Context) (parent : Option String) (name : String) :
    Noted (Option Schema.FieldDefinition) :=
  match c.schema, parent with
  | some s, some type =>
    if s.hasType type then
      match s.field? type name with
      | some definition => pure (some definition)
      | none =>
        if s.isUnion type then do
          .note (.uncommonField name type)
          return none
        else do
          .note (.unknownField name type)
          return none
    else do
      .note (.unknownType type)
      return none
  | _, _ => pure none

/-- Without a definition the field is left out: it is one of a union. -/
def isOmitted (c : Context) (parent : Option String) : Bool :=
  match c.schema, parent with
  | some s, some type => s.isUnion type
  | _, _ => false

/-- A resolver of the levels below the present one. -/
abbrev Below := Option String → List Node → Noted Selection

/-- The selection under a field, if there are nodes under it. -/
def resolveChildren (below : Below) (parent : Option String) (children : List Node) :
    Noted (Option Selection) :=
  if children.isEmpty then pure none
  else do
    let selection ← below parent children
    return some selection

/-- The field that all uses of one name on a level come to; `none` where it is left out. -/
def resolveField (c : Context) (below : Below) (parent : Option String) (name : String)
    (uses : List FieldUse) : Noted (Option SelectedField) := do
  let declared := uses.findSome? (·.1.declaredType)
  let deprecation := uses.findSome? (·.1.deprecation)
  let children := uses.flatMap (·.2)
  if name = typenameField then
    let selection ← resolveChildren below (some typenameType.baseName) children
    return some ⟨{ name, type := typenameType, deprecation }, selection⟩
  else
    match ← lookUp c parent name with
    | some definition =>
      let selection ← resolveChildren below (some definition.type.baseName) children
      let info : FieldInfo :=
        { name, type := definition.type
          deprecation := deprecation.or definition.deprecation
          description := if c.descriptions then definition.description else none }
      return some ⟨info, selection⟩
    | none =>
      if isOmitted c parent then return none
      else
        let selection ← resolveChildren below (declared.map (·.baseName)) children
        return some
          ⟨{ name, type := declared.getD untyped, deprecation, isResolved := false }, selection⟩

/-- The fields that the groups of a level come to, in order. -/
def resolveFields (c : Context) (below : Below) (parent : Option String) :
    KeyedList (List FieldUse) → Noted (List SelectedField)
  | [] => pure []
  | (name, uses) :: groups => do
    let field ← resolveField c below parent name uses
    let fields ← resolveFields c below parent groups
    return field.toList ++ fields

/-- The nodes under the conditions of a level, by concrete type. -/
def variantGroups (c : Context) (parent : Option String) (items : List Item) :
    KeyedList (List (List Node)) :=
  KeyedList.groupPairs (items.flatMap fun
    | .field .. => []
    | .condition on children => (c.variantTypes parent on).map (·, children))

def resolveVariants (below : Below) : KeyedList (List (List Node)) → Noted (List Variant)
  | [] => pure []
  | (type, children) :: groups => do
    let selection ← below (some type) children.flatten
    let variants ← resolveVariants below groups
    return ⟨type, selection⟩ :: variants

/-- The fields of a level by name, in order of the first of each name. -/
def fieldGroups (uses : List FieldUse) : KeyedList (List FieldUse) :=
  KeyedList.groupPairs (uses.map fun use => (use.1.name, use))

/-- A level on a type. Where there are conditions and the type leaves them open, it has variants. -/
def resolveLevel (c : Context) (below : Below) (parent : Option String) (nodes : List Node) :
    Noted Selection := do
  let items ← expand c parent nodes
  if items.any Item.isConditional && c.isPolymorphic parent then
    let fields ← resolveFields c below parent (fieldGroups (fieldUses items))
    let variants ← resolveVariants below (variantGroups c parent items)
    return ⟨parent, fields, variants⟩
  else
    let uses ← settle c parent nodes
    let fields ← resolveFields c below parent (fieldGroups uses)
    return ⟨parent, fields, []⟩

/-- Resolves at most `levels` levels; nodes further down are left out. -/
def resolveWithin (c : Context) : (levels : Nat) → Below
  | 0, parent, _ => pure ⟨parent, [], []⟩
  | levels + 1, parent, nodes => resolveLevel c (resolveWithin c levels) parent nodes

end Selection

/-- A fragment with its selection resolved, and what was found on the way. -/
structure ResolvedFragment where
  name : String
  onType : String
  selection : Selection
  findings : List Finding

namespace ResolvedFragment

/-- The diagnostics of a resolved fragment. -/
def diagnostics (r : ResolvedFragment) : List Diagnostic := r.findings.map (·.diagnostic r.name)

end ResolvedFragment

/-- The type of a fragment, if a schema is in use and lacks it. -/
def Fragment.ownFindings (c : Selection.Context) (f : Fragment) : List Finding :=
  if c.schema.any (!·.hasType f.onType) then [.unknownType f.onType] else []

/-- Resolves a fragment, given all fragments that its spreads may name. All levels are resolved. -/
def Fragment.resolve (c : Selection.Context) (known : List Fragment) (f : Fragment) :
    ResolvedFragment :=
  let noted := Selection.resolveWithin c (f.levels known) (some f.onType) (f.unfold known)
  { name := f.name
    onType := f.onType
    selection := noted.value
    findings := Finding.reportOnce [] (f.ownFindings c ++ noted.findings) }

end FragmentShapes
