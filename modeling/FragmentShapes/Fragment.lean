import FragmentShapes.Literal
import FragmentShapes.TypeRef

/-!
# Fragments

A fragment is a named selection on a type. A selection is a row of entries: fields, which may have a
selection of their own, uses of other fragments, and selections under a type condition.
-/

namespace FragmentShapes

/-- What a fragment says of a field, apart from the selection under it. -/
structure FieldHead where
  name : String
  arguments : KeyedList Literal := []
  /-- A type given in the document, used where no schema knows the field. -/
  declaredType : Option TypeRef := none
  deprecation : Option Deprecation := none
  deriving DecidableEq

/-- An entry of a selection. -/
inductive Entry where
  /-- A field and the selection under it, empty for a leaf. -/
  | field (head : FieldHead) (selection : List Entry)
  /-- The fields of another fragment. -/
  | spread (fragment : String)
  /-- Fields that are selected on a type only. A condition with a label is never merged into the
  selection around it, not even on that selection's own type. -/
  | condition (on : String) (label : Option String) (selection : List Entry)
  /-- Entries that belong to the selection around them. -/
  | group (selection : List Entry)
  deriving Inhabited

namespace Entry

/-- The entry depends on the type of the value. -/
def isConditional : Entry → Bool
  | condition .. => true
  | _ => false

/-- The name of a field, or the label of a condition. -/
def name? : Entry → Option String
  | field head _ => some head.name
  | condition _ label _ => label
  | _ => none

mutual

def height : Entry → Nat
  | field _ selection => heightAll selection + 1
  | spread _ => 1
  | condition _ _ selection => heightAll selection + 1
  | group selection => heightAll selection + 1

/-- How many levels the highest of some entries spans. -/
def heightAll : List Entry → Nat
  | [] => 0
  | entry :: entries => max entry.height (heightAll entries)

end

mutual

/-- Whether two entries are the same. -/
def beq : Entry → Entry → Bool
  | field head selection, field head' selection' => head == head' && beqAll selection selection'
  | spread fragment, spread fragment' => fragment == fragment'
  | condition on label selection, condition on' label' selection' =>
    on == on' && label == label' && beqAll selection selection'
  | group selection, group selection' => beqAll selection selection'
  | _, _ => false

def beqAll : List Entry → List Entry → Bool
  | [], [] => true
  | entry :: entries, entry' :: entries' => beq entry entry' && beqAll entries entries'
  | _, _ => false

end

mutual

theorem beq_iff : (a b : Entry) → (beq a b = true ↔ a = b)
  | field _ selection, b => by cases b <;> simp [beq, beqAll_iff selection]
  | spread _, b => by cases b <;> simp [beq]
  | condition _ _ selection, b => by cases b <;> simp [beq, beqAll_iff selection, and_assoc]
  | group selection, b => by cases b <;> simp [beq, beqAll_iff selection]

theorem beqAll_iff : (as bs : List Entry) → (beqAll as bs = true ↔ as = bs)
  | [], bs => by cases bs <;> simp [beqAll]
  | entry :: entries, bs => by cases bs <;> simp [beqAll, beq_iff entry, beqAll_iff entries]

end

instance : DecidableEq Entry := fun a b => decidable_of_iff _ (beq_iff a b)

end Entry

/-- A named selection on a type. -/
structure Fragment where
  name : String
  onType : String
  entries : List Entry
  deriving DecidableEq, Inhabited

end FragmentShapes
