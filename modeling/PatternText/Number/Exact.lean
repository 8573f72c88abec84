/-! Exact values of 64-bit floating point numbers. Every finite one is a whole number of units of
`2 ^ (-1074)`, the smallest positive one, so a sign and a natural number hold its value and all that
is asked of a number beyond the four operations, such as whole parts, comparisons and remainders, is
arithmetic on natural numbers. The way back rounds a quotient of natural numbers to the nearest
representable value, ties to the even neighbour. -/

namespace PatternText

/-- The value of a finite number: a sign and a count of units. -/
structure Exact where
  negative : Bool
  units : Nat
  deriving DecidableEq, Repr

/-- The number of units in one. -/
def unitsPerOne : Nat := Nat.pow 2 1074

theorem unitsPerOne_pos : 0 < unitsPerOne := by
  unfold unitsPerOne
  generalize 1074 = exponent
  exact Nat.pow_pos Nat.two_pos

namespace Exact

/-- The value of `x`, none for the infinities and for what is not a number. The significand of a
normal number has a leading one that is not stored. -/
def ofFloat? (x : Float) : Option Exact :=
  let bits := x.toBits.toNat
  let exponent := bits / Nat.pow 2 52 % 2048
  let fraction := bits % Nat.pow 2 52
  if exponent = 2047 then none
  else if exponent = 0 then some ⟨Nat.pow 2 63 ≤ bits, fraction⟩
  else some ⟨Nat.pow 2 63 ≤ bits, (Nat.pow 2 52 + fraction) * Nat.pow 2 (exponent - 1)⟩

/-- The value in units, with its sign. -/
def signedUnits (e : Exact) : Int :=
  if e.negative then -(e.units : Int) else e.units

/-- The whole part of the magnitude. -/
def whole (e : Exact) : Nat := e.units / unitsPerOne

def isWhole (e : Exact) : Bool := e.units % unitsPerOne == 0

/-- Whether the value is below zero, which minus zero is not. -/
def isBelowZero (e : Exact) : Bool := e.negative && e.units != 0

/-- The value cut to its whole part and then into the range of 64-bit words. -/
def toWord (e : Exact) : UInt64 :=
  if e.negative then 0 else UInt64.ofNat (min e.whole (UInt64.size - 1))

/-- The whole part as a signed number. -/
def toInt (e : Exact) : Int :=
  if e.negative then -(e.whole : Int) else e.whole

end Exact

/-- The whole number nearest to `num / den`, the even one of two. -/
def roundHalfEven (num den : Nat) : Nat :=
  let q := num / den
  let r := num % den
  if den < 2 * r || (2 * r == den && q % 2 == 1) then q + 1 else q

/-- The representation, without its sign bit, of the number nearest to `num / den` units. A number of
`53 + k` binary digits keeps the highest 53 of them. Rounding up to the next power of two carries
into the exponent by itself. -/
def roundUnits (num den : Nat) : Nat :=
  let k := (num / den).log2 - 52
  min (k * Nat.pow 2 52 + roundHalfEven num (den * Nat.pow 2 k)) (2047 * Nat.pow 2 52)

/-- The number nearest to `num / den` units, with the sign given. -/
def floatOfUnits (negative : Bool) (num den : Nat) : Float :=
  Float.ofBits (UInt64.ofNat ((if negative then Nat.pow 2 63 else 0) + roundUnits num den))

/-- The number nearest to `num / den`, with the sign given. -/
def floatOfRatio (negative : Bool) (num den : Nat) : Float :=
  floatOfUnits negative (num * unitsPerOne) den

/-- The remainder of a division that truncates: exact, with the sign of `x`. -/
def floatRemainder (x y : Float) : Float :=
  match Exact.ofFloat? x, Exact.ofFloat? y with
  | some a, some b =>
    if b.units = 0 then 0.0 / 0.0 else floatOfUnits a.negative (a.units % b.units) 1
  | some _, none => if y.isNaN then y else x
  | none, _ => 0.0 / 0.0

/-- The number nearest to the greatest word. -/
def greatestPlace : Float := (UInt64.ofNat (UInt64.size - 1)).toFloat

/-- It is the one after that word. -/
theorem ofFloat?_greatestPlace :
    Exact.ofFloat? greatestPlace = some ⟨false, UInt64.size * unitsPerOne⟩ := by
  decide +kernel

/-- The place that a computed number stands for: a whole number from zero up to the one nearest to the
greatest word, cut to a word. -/
def indexValue? (x : Float) : Option UInt64 := do
  let e ← Exact.ofFloat? x
  let greatest ← Exact.ofFloat? greatestPlace
  if e.isWhole && !e.isBelowZero && e.units ≤ greatest.units then some e.toWord else none

theorem indexValue?_eq (x : Float) : indexValue? x = (Exact.ofFloat? x).bind fun e =>
    if e.isWhole && !e.isBelowZero && e.whole ≤ UInt64.size then some e.toWord else none := by
  rw [indexValue?, ofFloat?_greatestPlace]
  refine congrArg _ (funext fun e => ?_)
  cases hwhole : e.isWhole with
  | false => rfl
  | true =>
    have hunits : e.units = e.whole * unitsPerOne :=
      (Nat.div_mul_cancel (Nat.dvd_of_mod_eq_zero (beq_iff_eq.1 hwhole))).symm
    have hle : e.units ≤ UInt64.size * unitsPerOne ↔ e.whole ≤ UInt64.size := by
      rw [hunits]
      exact Nat.mul_le_mul_right_iff unitsPerOne_pos
    simp only [Option.bind_eq_bind, Option.bind_some, hle]

end PatternText
