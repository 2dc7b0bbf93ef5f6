import FragmentShapes.Token
import Mathlib.Tactic.Common

/-!
# Sets of kinds of tokens

A set of kinds is a bit mask, so that union and comparison are single operations on numbers. Checks on
whole grammars are evaluated with them.
-/

namespace FragmentShapes

open Token (Kind)

/-- The place of a kind in a mask, which is its place in the list of all kinds. -/
def Token.Kind.index : Kind → Nat
  | .name => 0
  | .var => 1
  | .int => 2
  | .float => 3
  | .string => 4
  | .block => 5
  | .keyword word => 6 + word.ctorIdx
  | .punctuator mark => 17 + mark.ctorIdx

theorem Token.Kind.getElem?_index (k : Kind) : all[k.index]? = some k := by
  cases k with
  | keyword word => cases word <;> rfl
  | punctuator mark => cases mark <;> rfl
  | _ => rfl

theorem Token.Kind.index_inj {k l : Kind} (h : k.index = l.index) : k = l := by
  have hk := k.getElem?_index
  rw [h, l.getElem?_index] at hk
  exact (Option.some.inj hk).symm

/-- A set of kinds. -/
structure KindSet where
  mask : Nat

namespace KindSet

def contains (s : KindSet) (k : Kind) : Bool := s.mask.testBit k.index

def empty : KindSet := ⟨0⟩

def union (s t : KindSet) : KindSet := ⟨s.mask ||| t.mask⟩

def ofList (kinds : List Kind) : KindSet := ⟨kinds.foldr (fun k mask => 1 <<< k.index ||| mask) 0⟩

/-- The set if the condition holds, else nothing. -/
def only (c : Bool) (s : KindSet) : KindSet := bif c then s else empty

/-- No kind is in both sets. -/
def disjoint (s t : KindSet) : Bool := s.mask &&& t.mask == 0

/-- Every kind of the first set is in the second. -/
def within (s t : KindSet) : Bool := s.mask ||| t.mask == t.mask

@[simp] theorem contains_empty (k : Kind) : empty.contains k = false := by simp [contains, empty]

@[simp] theorem contains_union (s t : KindSet) (k : Kind) :
    (s.union t).contains k = (s.contains k || t.contains k) := by simp [contains, union]

@[simp] theorem contains_only (c : Bool) (s : KindSet) (k : Kind) :
    (s.only c).contains k = (c && s.contains k) := by cases c <;> simp [only]

@[simp] theorem contains_ofList (kinds : List Kind) (k : Kind) :
    (ofList kinds).contains k = kinds.contains k := by
  induction kinds with
  | nil => simp [contains, ofList]
  | cons l kinds ih =>
    have hl : (1 <<< l.index).testBit k.index = (k == l) := by
      rw [Nat.one_shiftLeft, Nat.testBit_two_pow, Bool.eq_iff_iff, decide_eq_true_eq, beq_iff_eq]
      exact ⟨fun h => Token.Kind.index_inj h.symm, fun h => by rw [h]⟩
    simp only [contains, ofList, List.foldr_cons, Nat.testBit_or, List.contains_cons] at ih ⊢
    rw [hl, ih]

theorem not_of_disjoint {s t : KindSet} (h : s.disjoint t = true) {k : Kind}
    (hk : s.contains k = true) : t.contains k = false := by
  have hand : (s.mask &&& t.mask).testBit k.index = false := by
    rw [eq_of_beq h, Nat.zero_testBit]
  rw [Nat.testBit_and, Bool.and_eq_false_iff] at hand
  exact hand.resolve_left (by simp [show s.mask.testBit k.index = true from hk])

theorem of_within {s t : KindSet} (h : s.within t = true) {k : Kind} (hk : s.contains k = true) :
    t.contains k = true := by
  have hor : (s.mask ||| t.mask).testBit k.index = t.contains k := by
    rw [eq_of_beq h]
    rfl
  rw [← hor, Nat.testBit_or, show s.mask.testBit k.index = true from hk, Bool.true_or]

end KindSet

end FragmentShapes
