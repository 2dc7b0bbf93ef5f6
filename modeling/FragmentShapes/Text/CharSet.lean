/-!
# Character sets

A set of characters is kept as the ascending list of the code points at which membership changes,
starting outside the set. A property of Unicode with hundreds of ranges stays a short table that way.
-/

namespace FragmentShapes.Text

/-- A set of characters: `toggles` lists in ascending order the code points at which it begins and ends. -/
structure CharSet where
  toggles : List Nat

namespace CharSet

/-- Membership of the code point `n`, walking the toggles from a state `inside`. -/
def containsFrom (n : Nat) (inside : Bool) : List Nat → Bool
  | [] => inside
  | toggle :: rest => if n < toggle then inside else containsFrom n (!inside) rest

def contains (s : CharSet) (c : Char) : Bool := containsFrom c.toNat false s.toggles

end CharSet

end FragmentShapes.Text
