import FragmentShapes.Numeric.Binary64

/-!
# Shortest decimal text of a number

The decimal with the fewest digits that reads back as the same number, and of those the nearest to
it. A number is first brought to its digits and the exponent of the first of them; a layout then
says how these are written.
-/

namespace FragmentShapes.Numeric

/-- The real numbers that round to one binary64 number, in units of `2 ^ (scale)`: the number itself
and the midpoints to its neighbours, which belong to it when its significand is even. -/
structure RoundingInterval where
  low : Nat
  value : Nat
  high : Nat
  closed : Bool
  scale : Int

/-- The interval of a finite number. Below a power of two the neighbour is half as far away. -/
def roundingInterval (x : Binary64) : RoundingInterval :=
  let (m, q) := x.significand
  let low := if m = Nat.pow 2 52 ∧ -1074 < q then 4 * m - 1 else 4 * m - 2
  ⟨low, 4 * m, 4 * m + 2, m % 2 == 0, q - 2⟩

/-- The quotient `digits * 10 ^ grid / 2 ^ scale` lies in the interval. -/
def RoundingInterval.holds (i : RoundingInterval) (digits : Nat) (grid : Int) : Bool :=
  let point := digits * Nat.pow 10 grid.toNat * Nat.pow 2 (-i.scale).toNat
  let unit := Nat.pow 10 (-grid).toNat * Nat.pow 2 i.scale.toNat
  if i.closed then i.low * unit ≤ point && point ≤ i.high * unit
  else i.low * unit < point && point < i.high * unit

/-- The greatest `e` with `10 ^ e ≤ numerator / denominator`, for a positive quotient. -/
def quotientLog10 (numerator denominator : Nat) : Int :=
  if denominator ≤ numerator then
    Int.ofNat (Binary64.decimalLength (numerator / denominator)) - 1
  else
    -Int.ofNat (Binary64.decimalLength ((denominator - 1) / numerator))

/-- Significant digits and the exponent of the first: `d₁.d₂d₃… * 10 ^ exponent`. -/
structure Decimal where
  digits : List Char
  exponent : Int
  deriving DecidableEq, Repr

/-- A decimal of the grid point `digits * 10 ^ grid`, without zeros at the end. -/
def Decimal.ofGrid (digits : Nat) (grid : Int) : Decimal :=
  let text := Nat.toDigits 10 digits
  ⟨(text.reverse.dropWhile (· == '0')).reverse, grid + (Int.ofNat text.length - 1)⟩

/-- The grid point of `count` digits nearest to the value, if one of its two neighbours there rounds
to it; of two neighbours at the same distance the even one. -/
def nearestOnGrid (i : RoundingInterval) (order : Int) (count : Nat) : Option Decimal :=
  let grid := order - (Int.ofNat count - 1)
  let numerator := i.value * Nat.pow 2 i.scale.toNat * Nat.pow 10 (-grid).toNat
  let denominator := Nat.pow 2 (-i.scale).toNat * Nat.pow 10 grid.toNat
  let nearest := Binary64.roundQuotient numerator denominator
  let floor := numerator / denominator
  let other := if nearest = floor then floor + 1 else floor
  if i.holds nearest grid then some (Decimal.ofGrid nearest grid)
  else if i.holds other grid then some (Decimal.ofGrid other grid)
  else none

/-- The shortest decimal of a positive finite number; seventeen digits always suffice. -/
def shortest (x : Binary64) : Decimal :=
  let i := roundingInterval x
  let order := quotientLog10 (i.value * Nat.pow 2 i.scale.toNat) (Nat.pow 2 (-i.scale).toNat)
  ((List.range 17).findSome? fun k => nearestOnGrid i order (k + 1)).getD ⟨['0'], 0⟩

/-- How a decimal is laid out as text. -/
structure Layout where
  /-- The least exponent that is written positionally. -/
  leastPositional : Int
  /-- The first exponent above the positional ones. -/
  firstScientific : Int
  /-- The least number of digits of a written exponent. -/
  exponentWidth : Nat
  infinity : String

/-- Positional from `0.0001` up to below `10 ^ 16` and always with a point, else with a signed
exponent of two digits or more. -/
def Layout.standard : Layout := ⟨-4, 16, 2, "inf"⟩

def Layout.exponentText (l : Layout) (e : Int) : List Char :=
  let digits := Nat.toDigits 10 e.natAbs
  (if e < 0 then '-' else '+') :: (List.replicate (l.exponentWidth - digits.length) '0' ++ digits)

def Layout.decimalText (l : Layout) (d : Decimal) : List Char :=
  if l.leastPositional ≤ d.exponent ∧ d.exponent < l.firstScientific then
    if d.exponent < 0 then
      '0' :: '.' :: (List.replicate (d.exponent.natAbs - 1) '0' ++ d.digits)
    else
      let whole := d.exponent.toNat + 1
      let fraction := d.digits.drop whole
      d.digits.take whole ++ List.replicate (whole - d.digits.length) '0' ++
        '.' :: (if fraction.isEmpty then ['0'] else fraction)
  else
    match d.digits with
    | [] => []
    | [c] => c :: 'e' :: l.exponentText d.exponent
    | c :: cs => c :: '.' :: (cs ++ 'e' :: l.exponentText d.exponent)

def Layout.text (l : Layout) (x : Binary64) : String :=
  let absolute :=
    if x.isInfinite then l.infinity.toList
    else if x.magnitude = 0 then l.decimalText ⟨['0'], 0⟩
    else l.decimalText (shortest x)
  String.ofList (if x.negative then '-' :: absolute else absolute)

end FragmentShapes.Numeric
