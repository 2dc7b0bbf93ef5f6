/-!
# Binary64 numbers

The finite numbers of IEEE 754 binary64 and the two infinities, kept as a sign and the bits below
it. Those bits read as a natural number grow with the absolute value, so that rounding up past a
power of two carries into the exponent and past the largest number becomes infinity by itself.
-/

namespace FragmentShapes

/-- A binary64 number: a sign and the 63 bits of the absolute value. -/
structure Binary64 where
  negative : Bool
  magnitude : Nat
  deriving DecidableEq, Repr, Inhabited

namespace Binary64

def infinityMagnitude : Nat := 0x7FF * Nat.pow 2 52

def bits (x : Binary64) : Nat := (if x.negative then Nat.pow 2 63 else 0) + x.magnitude

def isInfinite (x : Binary64) : Bool := infinityMagnitude ≤ x.magnitude

/-- The significand `m` and the exponent `q` of a finite number, whose absolute value is `m * 2 ^ q`. -/
def significand (x : Binary64) : Nat × Int :=
  let field := x.magnitude / Nat.pow 2 52
  let fraction := x.magnitude % Nat.pow 2 52
  if field = 0 then (fraction, -1074) else (Nat.pow 2 52 + fraction, Int.ofNat field - 1075)

/-- The quotient rounded to the nearest natural number, a half to the even one. -/
def roundQuotient (numerator denominator : Nat) : Nat :=
  let floor := numerator / denominator
  let twice := 2 * (numerator % denominator)
  if twice < denominator then floor
  else if denominator < twice then floor + 1
  else floor + floor % 2

/-- The greatest `k` with `2 ^ k ≤ numerator / denominator`, for a positive quotient. -/
def quotientLog2 (numerator denominator : Nat) : Int :=
  let k := Int.ofNat numerator.log2 - Int.ofNat denominator.log2
  if denominator * Nat.pow 2 k.toNat ≤ numerator * Nat.pow 2 (-k).toNat then k else k - 1

/-- The 63 bits of the number nearest to a positive quotient. -/
def magnitudeOfQuotient (numerator denominator : Nat) : Nat :=
  let q := max (quotientLog2 numerator denominator - 52) (-1074)
  let m := roundQuotient (numerator * Nat.pow 2 (-q).toNat) (denominator * Nat.pow 2 q.toNat)
  min ((q + 1074).toNat * Nat.pow 2 52 + m) infinityMagnitude

/-- How many decimal digits a natural number has; none for zero. -/
def decimalLength (n : Nat) : Nat := if n = 0 then 0 else (Nat.toDigits 10 n).length

/-- The number nearest to `digits * 10 ^ exponent`, with the sign of a zero kept. Exponents far
outside the range of binary64 are decided without computing the power. -/
def ofDecimal (negative : Bool) (digits : Nat) (exponent : Int) : Binary64 :=
  let order := exponent + decimalLength digits
  if digits = 0 ∨ order < -330 then ⟨negative, 0⟩
  else if 310 < order then ⟨negative, infinityMagnitude⟩
  else ⟨negative, magnitudeOfQuotient (digits * Nat.pow 10 exponent.toNat) (Nat.pow 10 (-exponent).toNat)⟩

end Binary64

end FragmentShapes
