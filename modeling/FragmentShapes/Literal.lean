import FragmentShapes.KeyedList
import FragmentShapes.Numeric.Binary64

/-!
# Literals

The values that documents write as arguments and as defaults.
-/

namespace FragmentShapes

/-- A literal value. A bare name is one of an enumeration, apart from `true`, `false` and `null`. -/
inductive Literal where
  | null
  | bool (value : Bool)
  | int (value : Int)
  | float (value : Binary64)
  | string (text : String)
  | name (text : String)
  | var (label : String)
  | list (items : List Literal)
  | object (members : List (String × Literal))
  deriving Inhabited

namespace Literal

def ofName (text : String) : Literal :=
  if text = "true" then bool true
  else if text = "false" then bool false
  else if text = "null" then null
  else name text

/-- The text of a literal that is one: a string, a bare name, or a variable with its dollar sign. -/
def text? : Literal → Option String
  | string text => some text
  | name text => some text
  | var label => some ("$" ++ label)
  | _ => none

mutual

/-- Whether two literals are the same. -/
def beq : Literal → Literal → Bool
  | null, null => true
  | bool value, bool value' => value == value'
  | int value, int value' => value == value'
  | float value, float value' => value == value'
  | string text, string text' => text == text'
  | name text, name text' => text == text'
  | var label, var label' => label == label'
  | list items, list items' => beqItems items items'
  | object members, object members' => beqMembers members members'
  | _, _ => false

def beqItems : List Literal → List Literal → Bool
  | [], [] => true
  | item :: items, item' :: items' => beq item item' && beqItems items items'
  | _, _ => false

def beqMembers : List (String × Literal) → List (String × Literal) → Bool
  | [], [] => true
  | (key, value) :: members, (key', value') :: members' =>
    key == key' && beq value value' && beqMembers members members'
  | _, _ => false

end

mutual

theorem beq_iff : (a b : Literal) → (beq a b = true ↔ a = b)
  | list items, b => by cases b <;> simp [beq, beqItems_iff items]
  | object members, b => by cases b <;> simp [beq, beqMembers_iff members]
  | null, b | bool _, b | int _, b | float _, b | string _, b | name _, b | var _, b => by
    cases b <;> simp [beq]

theorem beqItems_iff : (as bs : List Literal) → (beqItems as bs = true ↔ as = bs)
  | [], bs => by cases bs <;> simp [beqItems]
  | item :: items, bs => by cases bs <;> simp [beqItems, beq_iff item, beqItems_iff items]

theorem beqMembers_iff : (as bs : List (String × Literal)) → (beqMembers as bs = true ↔ as = bs)
  | [], bs => by cases bs <;> simp [beqMembers]
  | (key, value) :: members, bs => by
    cases bs <;> simp [beqMembers, beq_iff value, beqMembers_iff members, Prod.ext_iff, and_assoc]

end

instance : DecidableEq Literal := fun a b => decidable_of_iff _ (beq_iff a b)

end Literal

/-- The use of a directive. -/
structure Directive where
  name : String
  arguments : KeyedList Literal
  deriving DecidableEq

/-- The mark of something deprecated, with the reason if one is given. -/
structure Deprecation where
  reason : Option String := none
  deriving DecidableEq, Repr

/-- The deprecation that a row of directives expresses: the first `@deprecated` counts, and its
reason if that is a text. -/
def Deprecation.ofDirectives (directives : List Directive) : Option Deprecation :=
  (directives.find? (·.name = "deprecated")).map fun directive =>
    { reason := (KeyedList.get? directive.arguments "reason").bind Literal.text? }

end FragmentShapes
