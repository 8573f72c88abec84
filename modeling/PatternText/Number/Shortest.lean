import PatternText.Number.Exact

/-! The shortest decimal form of a number. A decimal reads back as the number when it lies in the
interval of values that round to it, whose ends belong to it when the significand is even. The form is
taken from the coarsest power-of-ten grid that has a point in that interval; of two such points the
nearer is meant, and the greater one on a tie. -/

namespace PatternText

/-- The decimal number `digits * 10 ^ exponent`. -/
structure Decimal where
  digits : Nat
  exponent : Int
  deriving DecidableEq, Repr

/-- The values that round to a positive number, in quarters of a unit. -/
structure RoundingInterval where
  low : Nat
  high : Nat
  closed : Bool

namespace RoundingInterval

/-- The interval around a number of so many units. Neighbours stand one step of the last binary digit
apart, and half as far below a power of two, unless the number is among the smallest. -/
def ofUnits (units : Nat) : RoundingInterval :=
  let k := units.log2 - 52
  let significand := units / Nat.pow 2 k
  { low := 4 * units - (if significand = Nat.pow 2 52 ∧ 0 < k then Nat.pow 2 k else 2 * Nat.pow 2 k)
    high := 4 * units + 2 * Nat.pow 2 k
    closed := significand % 2 == 0 }

/-- Whether `num / den` quarter units lie in the interval. -/
def contains (i : RoundingInterval) (num den : Nat) : Bool :=
  if i.closed then i.low * den ≤ num && num ≤ i.high * den
  else i.low * den < num && num < i.high * den

end RoundingInterval

namespace Decimal

/-- The numerator and denominator of `10 ^ exponent` in units. -/
def gridStep (exponent : Int) : Nat × Nat :=
  if 0 ≤ exponent then (Nat.pow 10 exponent.toNat * unitsPerOne, 1) else (unitsPerOne, Nat.pow 10 (-exponent).toNat)

/-- The point of the grid with this exponent that lies in the interval around so many units. -/
def onGrid? (units : Nat) (exponent : Int) : Option Decimal :=
  let (num, den) := gridStep exponent
  let interval := RoundingInterval.ofUnits units
  let below := units * den / num
  let fits (point : Nat) : Bool := interval.contains (4 * point * num) den
  let above := below + 1
  match fits below, fits above with
  | true, true => some ⟨if 2 * units * den < (2 * below + 1) * num then below else above, exponent⟩
  | true, false => some ⟨below, exponent⟩
  | false, true => some ⟨above, exponent⟩
  | false, false => none

/-- The first grid with a point, from the exponent `top` downwards over `count` more grids. -/
def firstOnGrid (units : Nat) (top : Int) : Nat → Decimal
  | 0 => (onGrid? units top).getD ⟨0, 0⟩
  | count + 1 =>
    match onGrid? units top with
    | some d => d
    | none => firstOnGrid units (top - 1) count

/-- The shortest decimal that reads back as the number of so many units. No grid finer than
`10 ^ (-324)` is needed, and none as coarse as a power of ten above the number can have a point. -/
def shortest (units : Nat) : Decimal :=
  let top := (Nat.toDigits 10 (units / unitsPerOne)).length
  firstOnGrid units top (top + 324)

/-- The decimal in positional notation: no exponent, no point in a whole number. -/
def toText (d : Decimal) : List Char :=
  let digits := Nat.toDigits 10 d.digits
  if 0 ≤ d.exponent then digits ++ List.replicate d.exponent.toNat '0'
  else
    let places := (-d.exponent).toNat
    let padded := List.replicate (places + 1 - digits.length) '0' ++ digits
    padded.take (padded.length - places) ++ '.' :: padded.drop (padded.length - places)

end Decimal

end PatternText
