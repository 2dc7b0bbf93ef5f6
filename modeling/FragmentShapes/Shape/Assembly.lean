import FragmentShapes.Config
import FragmentShapes.Selection.Resolve
import FragmentShapes.Shape

/-!
# Assembling shapes

The tree of shapes of a resolved fragment. A shape is emitted after the shapes it refers to, so the
root comes last. Where a path has a shape already, that shape is used again if the structure is the
same. Under the mixed policy the structures that a fragment uses more than once are lifted to the top,
each under one name.
-/

namespace FragmentShapes

/-- Why a fragment has no tree. -/
inductive AssemblyError where
  | naming (e : NamingError)
  | typeRef (f : TypeRef.Fault)
  deriving DecidableEq, Repr

/-- A structure under the name that it would have by itself. -/
abbrev NamedSignature := String × Signature

/-- What assembly has produced so far. The registry outlives the fragment, the rest does not. -/
structure AssemblyState where
  registry : NameRegistry Signature
  shapes : List Shape := []
  /-- The names given to shared structures. -/
  sharedNames : List (NamedSignature × String) := []

/-- A step of assembly. What a failed step has changed stays changed. -/
def Assembly (α : Type) := AssemblyState → Except AssemblyError α × AssemblyState

namespace Assembly

variable {α β : Type}

instance : Monad Assembly where
  pure value := fun s => (.ok value, s)
  bind step next := fun s =>
    match step s with
    | (.ok value, s) => next value s
    | (.error e, s) => (.error e, s)

def state : Assembly AssemblyState := fun s => (.ok s, s)

def fail (e : AssemblyError) : Assembly α := fun s => (.error e, s)

/-- A result that does not depend on the state. -/
def ofNaming : Except NamingError α → Assembly α
  | .ok value => pure value
  | .error e => fail (.naming e)

/-- Changes the registry, or fails and leaves it. -/
def updateRegistry (f : NameRegistry Signature → Except NamingError (NameRegistry Signature)) :
    Assembly Unit := fun s =>
  match f s.registry with
  | .ok registry => (.ok (), { s with registry })
  | .error e => (.error (.naming e), s)

def emit (shape : Shape) : Assembly Unit := fun s =>
  (.ok (), { s with shapes := s.shapes ++ [shape] })

def keepSharedName (key : NamedSignature) (name : String) : Assembly Unit := fun s =>
  (.ok (), { s with sharedNames := s.sharedNames ++ [(key, name)] })

end Assembly

/-! ## Shared structures -/

mutual

/-- The places of a selection that have a selection of their own, from the top down: the stem of the
name of each and the type that it is named for, and its selection. -/
def Selection.objects : Selection → List (String × Option String × Selection)
  | ⟨_, fields, variants⟩ => SelectedField.objects fields ++ Variant.objects variants

def SelectedField.objects : List SelectedField → List (String × Option String × Selection)
  | [] => []
  | ⟨_, none⟩ :: fields => SelectedField.objects fields
  | ⟨info, some selection⟩ :: fields =>
    (info.name, selection.typeName, selection) ::
      (selection.objects ++ SelectedField.objects fields)

def Variant.objects : List Variant → List (String × Option String × Selection)
  | [] => []
  | ⟨typeName, selection⟩ :: variants =>
    (NamingPolicy.variantMember typeName, some typeName, selection) ::
      (selection.objects ++ Variant.objects variants)

end

namespace Assembly

/-- The name that each place of a selection would have by itself, with its structure. -/
def namedSignatures (p : NamingPolicy) (selection : Selection) :
    Except NamingError (List NamedSignature) :=
  selection.objects.mapM fun (stem, typeName, inner) => do
    let name ← p.assignName stem none typeName
    return (name, inner.signature)

/-- The structures that a selection uses more than once; only the mixed policy asks for them. -/
def sharedSignatures (p : NamingPolicy) (selection : Selection) :
    Except NamingError (List NamedSignature) :=
  if p.placement = .mixed then do
    let all ← namedSignatures p selection
    return all.filter fun key => 1 < all.count key
  else return []

/-- What stays the same while one fragment is assembled. -/
structure Context where
  policy : NamingPolicy
  scalars : ScalarMapping
  docComments : Bool
  fragment : String
  shared : List NamedSignature

/-- A shape from the point of view of those below it: its path, what their names begin with when they
are lifted to the top, and its depth. -/
structure Place where
  path : String
  context : String
  depth : Nat

/-! ## Names -/

/-- The name belongs to another structure, in this fragment or in the registry. -/
def isTaken (s : AssemblyState) (signature : Signature) (name : String) : Bool :=
  s.sharedNames.any (·.2 = name) ||
    (s.registry.get? name globalScope).any (·.signature ≠ signature)

/-- The name with a number in front of its suffix. -/
def numbered (name : String) (n : Nat) : String :=
  NamingPolicy.stemPart name ++ Nat.repr n ++ NamingPolicy.modelSuffix

/-- The first free of the names numbered from two. There are more of them than taken names. -/
def firstFreeNumbered (s : AssemblyState) (signature : Signature) (name : String) : String :=
  let count := s.sharedNames.length + s.registry.registrations.length + 1
  let candidates := (List.range count).map fun k => numbered name (k + 2)
  (candidates.find? (!isTaken s signature ·)).getD (numbered name (count + 2))

/-- The name of a shared structure: of the fragment, else of the context of its first use, else
numbered. Every later use of the structure has the same name. -/
def sharedName (c : Context) (parent : Place) (stem bare : String) (selection : Selection) :
    Assembly String := do
  let signature := selection.signature
  let s ← state
  match s.sharedNames.lookup (bare, signature) with
  | some name => return name
  | none =>
    let first ← ofNaming (c.policy.assignName stem (some c.fragment) selection.typeName)
    let candidates ←
      if parent.context = c.fragment then pure [first]
      else do
        let second ← ofNaming (c.policy.assignName stem (some parent.context) selection.typeName)
        pure [first, second]
    let name :=
      (candidates.find? (!isTaken s signature ·)).getD (firstFreeNumbered s signature first)
    keepSharedName (bare, signature) name
    return name

/-! ## Shapes -/

def emitShape (signature : Signature) (shape : Shape) : Assembly Unit := do
  updateRegistry (·.register shape.name shape.scope signature)
  emit shape

/-- The comment of a shape, if comments are wanted. -/
def docOf (c : Context) (text : String) : Option String := if c.docComments then some text else none

/-- The name of a shape below `parent`, and what the names of lifted shapes below it begin with. -/
def nameShape (c : Context) (parent : Place) (stem bare : String) (selection : Selection)
    (placement : Placement) (shared : Bool) : Assembly (String × String) :=
  match placement with
  | .nested => return (bare, parent.context ++ "_" ++ NamingPolicy.stemPart bare)
  | .hoisted => do
    let name ←
      if shared && !c.policy.exceedsDepth (parent.depth + 1) then
        sharedName c parent stem bare selection
      else ofNaming (c.policy.assignName stem (some parent.context) selection.typeName)
    return (name, NamingPolicy.stemPart name)

/-- Where the shape of a selection goes. -/
structure Location where
  name : String
  scope : String
  placement : Placement
  /-- What the names of lifted shapes below it begin with. -/
  context : String
  depth : Nat

def Location.path (l : Location) : String := qualify l.scope l.name

/-- The shape from the point of view of those below it. -/
def Location.place (l : Location) : Place := ⟨l.path, l.context, l.depth⟩

/-- Where the shape of a selection below `parent` goes. -/
def locate (c : Context) (parent : Place) (stem : String) (selection : Selection) :
    Assembly Location := do
  let depth := parent.depth + 1
  let bare ← ofNaming (c.policy.assignName stem none selection.typeName)
  let shared := c.shared.contains (bare, selection.signature)
  let (scope, placement) := c.policy.assignScope parent.path depth shared
  let (name, context) ← nameShape c parent stem bare selection placement shared
  return { name, scope, placement, context, depth }

/-- The shape of a selection below `parent`. -/
def shapeAt (c : Context) (parent : Place) (doc : String) (selection : Selection) (l : Location)
    (members : List Member) : Shape where
  name := l.name
  scope := l.scope
  placement := l.placement
  isDiscriminated := selection.isDiscriminated
  members
  sourceType := selection.typeName
  depth := l.depth
  parent := some parent.path
  doc := docOf c doc

/-- Sees to it that the shape of a selection is there. One that is there already is used again, provided
that its structure is the same; else `build` gives the members of a new one. -/
def provideShape (c : Context) (parent : Place) (doc : String) (selection : Selection)
    (build : Place → Assembly (List Member)) (l : Location) : Assembly Unit := do
  let s ← state
  if s.shapes.any (·.path = l.path) then
    updateRegistry (·.register l.name l.scope selection.signature)
  else do
    let members ← build l.place
    emitShape selection.signature (shapeAt c parent doc selection l members)

/-- The path of the shape of a selection below `parent`. -/
def childShape (c : Context) (parent : Place) (stem doc : String) (selection : Selection)
    (build : Place → Assembly (List Member)) : Assembly String := do
  let l ← locate c parent stem selection
  provideShape c parent doc selection build l
  updateRegistry (·.relate parent.path l.path)
  return l.path

/-! ## Members -/

/-- The member that tells the variant of a value. -/
def discriminant (c : Context) : Member where
  name := Selection.typenameField
  type := Selection.typenameType
  target := c.scalars.ofTypeRef none Selection.typenameType
  role := .discriminant

/-- The member of a field, whose value has a shape if it is an object. -/
def fieldMember (c : Context) (info : FieldInfo) (shape : Option String) : Member where
  name := info.name
  type := info.type
  target := c.scalars.ofTypeRef shape info.type
  shape
  deprecation := info.deprecation
  description := info.description

def variantMember (c : Context) (typeName shape : String) : Assembly Member :=
  match TypeRef.ofName typeName true with
  | .ok type =>
    return { name := NamingPolicy.variantMember typeName, type,
             target := c.scalars.ofTypeRef (some shape) type, shape := some shape,
             role := .variant typeName }
  | .error f => fail (.typeRef f)

/-- The comment of the shape under a field. -/
def fieldDoc (name : String) (typeName : Option String) : String :=
  match typeName with
  | some type => if type = "" then s!"Selection of '{name}'." else s!"Selection of '{name}' on {type}."
  | none => s!"Selection of '{name}'."

def variantDoc (typeName : String) : String :=
  s!"Fields selected when {Selection.typenameField} is '{typeName}'."

mutual

/-- The members of the shape at a place, in order: the discriminant if there are variants, the fields,
the variants. The discriminant takes the place of a selected `__typename`. -/
def members (c : Context) : Selection → Place → Assembly (List Member)
  | ⟨_, fields, variants⟩, place => do
    let discriminated := !variants.isEmpty
    let fieldMembers ← fieldMembers c discriminated fields place
    let variantMembers ← variantMembers c variants place
    return (if discriminated then [discriminant c] else []) ++ fieldMembers ++ variantMembers

def fieldMembers (c : Context) (discriminated : Bool) :
    List SelectedField → Place → Assembly (List Member)
  | [], _ => return []
  | ⟨info, none⟩ :: fields, place => do
    let more ← fieldMembers c discriminated fields place
    if discriminated && info.name = Selection.typenameField then return more
    else return fieldMember c info none :: more
  | ⟨info, some selection⟩ :: fields, place =>
    if discriminated && info.name = Selection.typenameField then
      fieldMembers c discriminated fields place
    else do
      let shape ← childShape c place info.name (fieldDoc info.name selection.typeName) selection
        (members c selection)
      let more ← fieldMembers c discriminated fields place
      return fieldMember c info (some shape) :: more

def variantMembers (c : Context) : List Variant → Place → Assembly (List Member)
  | [], _ => return []
  | ⟨typeName, selection⟩ :: variants, place => do
    let shape ← childShape c place (NamingPolicy.variantMember typeName) (variantDoc typeName)
      selection (members c selection)
    let member ← variantMember c typeName shape
    let more ← variantMembers c variants place
    return member :: more

end

/-- The shape of a fragment itself, whose name is given. -/
def rootShape (c : Context) (r : ResolvedFragment) (name : String) (members : List Member) : Shape where
  name
  scope := globalScope
  placement := .hoisted
  isDiscriminated := r.selection.isDiscriminated
  members
  sourceType := some r.onType
  doc := docOf c s!"Generated from fragment {r.name} on {r.onType}."

/-- Emits the shapes of a fragment, and gives the last of them. -/
def assembleRoot (c : Context) (r : ResolvedFragment) : Assembly Shape := do
  let name ← ofNaming (NamingPolicy.rootName r.name)
  let members ← members c r.selection ⟨name, r.name, 0⟩
  let root := rootShape c r name members
  emitShape r.selection.signature root
  return root

end Assembly

/-- What the trees of a run have in common: how shapes are named and placed, how types are mapped, and
what the generated code is to be like. -/
structure AssemblyOptions where
  policy : NamingPolicy
  scalars : ScalarMapping
  docComments : Bool := true
  immutableTypes : Bool := true
  target : String

/-- What stays the same while a fragment is assembled. -/
def AssemblyOptions.context (o : AssemblyOptions) (fragment : String) (shared : List NamedSignature) :
    Assembly.Context where
  policy := o.policy
  scalars := o.scalars
  docComments := o.docComments
  fragment
  shared

/-- The tree of a resolved fragment, and the registry behind it. -/
def ResolvedFragment.assembleWith (r : ResolvedFragment) (o : AssemblyOptions)
    (registry : NameRegistry Signature) : Except AssemblyError ShapeTree × NameRegistry Signature :=
  match Assembly.sharedSignatures o.policy r.selection with
  | .error e => (.error (.naming e), registry)
  | .ok shared =>
    match Assembly.assembleRoot (o.context r.name shared) r { registry } with
    | (.error e, s) => (.error e, s.registry)
    | (.ok root, s) =>
      (.ok { fragment := r.name, onType := r.onType, target := o.target, root, shapes := s.shapes,
             immutableTypes := o.immutableTypes, docComments := o.docComments }, s.registry)

def Config.assemblyOptions (c : Config) : AssemblyOptions where
  policy := c.namingPolicy
  scalars := { custom := c.customScalars, enforceNonNull := c.enforceNonNull }
  docComments := c.docComments
  immutableTypes := c.immutableTypes
  target := c.target

/-- The tree of a resolved fragment under a configuration, and the registry behind it. -/
def ResolvedFragment.assemble (r : ResolvedFragment) (c : Config)
    (registry : NameRegistry Signature) : Except AssemblyError ShapeTree × NameRegistry Signature :=
  r.assembleWith c.assemblyOptions registry

end FragmentShapes
