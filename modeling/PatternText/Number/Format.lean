import PatternText.Number.Shortest

/-! Numbers as text. The general form is the shortest decimal that reads back, always positional; the
plain form is the same with minus zero folded into zero. With a fixed number of places the exact value
is rounded at that place, a half going away from zero; a number of `10 ^ 21` or more, and one that is
not finite, stays plain. Simplifying drops zeros at the end of a fraction, and the point with the last
of them. -/

namespace PatternText

/-- The shortest decimal that reads back as `x`, with names for what is not finite. -/
def floatText (x : Float) : String :=
  match Exact.ofFloat? x with
  | some e =>
    let magnitude := if e.units = 0 then ['0'] else (Decimal.shortest e.units).toText
    String.ofList (if e.negative then '-' :: magnitude else magnitude)
  | none => if x.isNaN then "NaN" else if x < 0 then "-inf" else "inf"

/-- The shortest decimal, without a sign on zero. -/
def plainText (x : Float) : String :=
  if x == 0 then "0" else floatText x

/-- The most places that the exact decimal expansion of a finite number can fill. -/
def exactPlaces : Nat := 1074

/-- The magnitude rounded to so many places, a half away from zero, as a multiple of the last place. -/
def Exact.toPlaces (e : Exact) (places : Nat) : Nat :=
  (2 * e.units * Nat.pow 10 places + unitsPerOne) / (2 * unitsPerOne)

/-- The magnitude with so many decimal places. Places beyond the exact expansion hold zeros. -/
def Exact.fixedDigits (e : Exact) (places : Nat) : List Char :=
  let kept := min places exactPlaces
  let digits := Nat.toDigits 10 (e.toPlaces kept)
  let padded := List.replicate (kept + 1 - digits.length) '0' ++ digits
  let whole := padded.take (padded.length - kept)
  let fraction := padded.drop (padded.length - kept) ++ List.replicate (places - kept) '0'
  if places = 0 then whole else whole ++ '.' :: fraction

/-- From this magnitude on, a number is never given a fixed number of places. -/
def fixedLimit : Nat := Nat.pow 10 21 * unitsPerOne

/-- `x` with so many decimal places. -/
def fixedText (x : Float) (places : Nat) : String :=
  match Exact.ofFloat? x with
  | some e =>
    if fixedLimit ≤ e.units then plainText x
    else String.ofList (if e.isBelowZero then '-' :: e.fixedDigits places else e.fixedDigits places)
  | none => plainText x

/-- The text without the zeros at its end, and then without a point there. -/
def dropTrailingZeros (s : String) : String :=
  String.ofList ((s.toList.reverse.dropWhile (· == '0')).dropWhile (· == '.')).reverse

/-- How a computed number is written: with a fixed number of places or plain, simplified or not. -/
structure NumberFormat where
  places : Option UInt64 := none
  simplify : Bool := false
  deriving DecidableEq, Repr

namespace NumberFormat

/-- The text of a number in a format. -/
def apply (format : NumberFormat) (x : Float) : String :=
  match format.places with
  | none => plainText x
  | some places =>
    if format.simplify && ((Exact.ofFloat? x).map Exact.isWhole).getD false then plainText x
    else
      let text := fixedText x places.toNat
      if format.simplify && places != 0 then dropTrailingZeros text else text

end NumberFormat

end PatternText
