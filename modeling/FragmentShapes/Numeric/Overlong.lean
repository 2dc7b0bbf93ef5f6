/-!
# Overlong integers

An integer may be written with a limited number of digits, zeros in front included. One with more is
not read at all, whatever stands around it.
-/

namespace FragmentShapes

/-- An integer that is written with too many digits. -/
structure OverlongInteger where
  digits : Nat
  deriving DecidableEq, Repr

namespace OverlongInteger

/-- The greatest number of digits of an integer. -/
def limit : Nat := 4300

/-- What is wrong with an integer of so many digits, if anything is. -/
def check? (digits : Nat) : Option OverlongInteger := if limit < digits then some ⟨digits⟩ else none

def message (o : OverlongInteger) : String :=
  s!"Exceeds the limit ({limit} digits) for integer string conversion: value has {o.digits} digits; use sys.set_int_max_str_digits() to increase the limit"

end OverlongInteger

end FragmentShapes
