/-!
# The registry of model names

Which model names are taken, in which scope, and for which shape. A shape is known by its signature.
The first shape to register a qualified name keeps it; the same shape may register it again. The
registry also records which model belongs to which parent, apart from where either is emitted.
-/

namespace FragmentShapes

def globalScope : String := "global"

def qualify (scope name : String) : String :=
  if scope = globalScope then name else scope ++ "." ++ name

/-- Why a name cannot be assigned or registered. -/
inductive NamingError where
  | collision (name scope : String)
  | emptyRelation
  | emptyFieldName
  | emptyCustomName (field : String)
  | invalidModelName (name : String)
  | invalidFragmentName (name : String)
  deriving DecidableEq, Repr

namespace NamingError

def message : NamingError → String
  | collision name scope =>
    s!"Model name '{name}' in scope '{scope}' is already used by a different shape"
  | emptyRelation => "Parent and child model names must not be empty"
  | emptyFieldName => "Field name must not be empty"
  | emptyCustomName field => s!"Custom model name for '{field}' is empty"
  | invalidModelName name => s!"'{name}' is not a valid model name"
  | invalidFragmentName name => s!"'{name}' is not a valid fragment name"

/-- Two shapes want one name; every other error is one of configuration. -/
def isCollision : NamingError → Bool
  | collision .. => true
  | _ => false

end NamingError

/-- A name in a scope, and the signature of its shape. -/
structure Registration (σ : Type) where
  name : String
  scope : String
  signature : σ

def Registration.path {σ : Type} (r : Registration σ) : String := qualify r.scope r.name

/-- The names registered so far in order, and the pairs of parent and child. -/
structure NameRegistry (σ : Type) where
  registrations : List (Registration σ) := []
  relations : List (String × String) := []

namespace NameRegistry

variable {σ : Type}

def empty : NameRegistry σ := {}

def atPath? (r : NameRegistry σ) (path : String) : Option (Registration σ) :=
  r.registrations.find? (·.path = path)

def get? (r : NameRegistry σ) (name scope : String) : Option (Registration σ) :=
  r.atPath? (qualify scope name)

def register [DecidableEq σ] (r : NameRegistry σ) (name scope : String) (signature : σ) :
    Except NamingError (NameRegistry σ) :=
  match r.get? name scope with
  | some existing =>
    if existing.signature = signature then .ok r else .error (.collision name scope)
  | none => .ok { r with registrations := r.registrations ++ [⟨name, scope, signature⟩] }

/-- Records that a model belongs to a parent, both by their paths. -/
def relate (r : NameRegistry σ) (parent child : String) : Except NamingError (NameRegistry σ) :=
  if parent = "" ∨ child = "" then .error .emptyRelation
  else if r.relations.contains (parent, child) then .ok r
  else .ok { r with relations := r.relations ++ [(parent, child)] }

/-- The paths of all models in order of registration. -/
def paths (r : NameRegistry σ) : List String := r.registrations.map (·.path)

/-- The scopes in which names were registered, in order of the first. -/
def scopes (r : NameRegistry σ) : List String := (r.registrations.map (·.scope)).eraseDups

/-- The names registered in a scope, in order. -/
def namesIn (r : NameRegistry σ) (scope : String) : List String :=
  (r.registrations.filter (·.scope = scope)).map (·.name)

/-- The models that belong to a parent, in the order in which they were recorded. -/
def children (r : NameRegistry σ) (parent : String) : List String :=
  (r.relations.filter (·.1 = parent)).map (·.2)

end NameRegistry

end FragmentShapes
