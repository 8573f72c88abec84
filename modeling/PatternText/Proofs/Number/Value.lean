import Mathlib
import PatternText.Number.Exact

/-! The rational values of floating point numbers. A finite number is unpacked into a sign, a mantissa and
a power of two, which denote a rational number. The sign and the count of units that are read off the
bits stand for the same number. -/

namespace PatternText

open Float.Model

/-! ### Values -/

/-- The number with the sign put before it. -/
def signed : UnpackedFloat.Sign → ℚ → ℚ
  | .positive, q => q
  | .negative, q => -q

theorem signed_zero (sign : UnpackedFloat.Sign) : signed sign 0 = 0 := by
  cases sign with
  | positive => rfl
  | negative => exact neg_zero

/-- The rational number that is written with a mantissa and a power of two. -/
def unpackedValue? : UnpackedFloat → Option ℚ
  | .zero _ => some 0
  | .finite sign mantissa exponent _ => some (signed sign (mantissa * 2 ^ exponent))
  | .infinity _ | .notANumber => none

/-- The rational number that a number denotes, none if it is not finite. -/
def floatValue? (x : Float) : Option ℚ := unpackedValue? x.toModel.unpack

namespace Exact

/-- The value as a rational number. -/
def value (e : Exact) : ℚ :=
  if e.negative then -(e.units / unitsPerOne) else e.units / unitsPerOne

theorem value_mk (p : Prop) [Decidable p] (units : Nat) :
    (Exact.mk p units).value = signed (if p then .negative else .positive) (units / unitsPerOne) := by
  rw [value]
  by_cases h : p
  · rw [if_pos (decide_eq_true h), if_pos h, signed]
  · rw [if_neg (mt of_decide_eq_true h), if_neg h, signed]

theorem abs_value (e : Exact) : |e.value| = e.units / unitsPerOne := by
  have hnonneg : (0 : ℚ) ≤ e.units / unitsPerOne := div_nonneg (Nat.cast_nonneg _) (Nat.cast_nonneg _)
  rw [value]
  split
  · rw [abs_neg, abs_of_nonneg hnonneg]
  · exact abs_of_nonneg hnonneg

theorem value_neg_iff (e : Exact) : e.value < 0 ↔ e.isBelowZero = true := by
  have hunits : (0 : ℚ) < unitsPerOne := Nat.cast_pos.2 unitsPerOne_pos
  have hnonneg : (0 : ℚ) ≤ e.units / unitsPerOne := div_nonneg (Nat.cast_nonneg _) hunits.le
  rw [value, isBelowZero]
  cases e.negative with
  | false =>
    rw [if_neg Bool.false_ne_true, Bool.false_and]
    exact iff_of_false (not_lt.2 hnonneg) Bool.false_ne_true
  | true =>
    rw [if_pos rfl, neg_lt_zero, Bool.true_and, bne_iff_ne, div_pos_iff_of_pos_right hunits,
      Nat.cast_pos, Nat.pos_iff_ne_zero]

section Whole

variable (e : Exact)

theorem isWhole_iff : e.isWhole = true ↔ e.units = e.whole * unitsPerOne := by
  rw [isWhole, beq_iff_eq, whole]
  constructor
  · exact fun h => (Nat.div_mul_cancel (Nat.dvd_of_mod_eq_zero h)).symm
  · exact fun h => by rw [h, Nat.mul_mod_left]

theorem abs_value_of_isWhole (h : e.isWhole = true) : |e.value| = e.whole := by
  have hpos : (unitsPerOne : ℚ) ≠ 0 := Nat.cast_ne_zero.2 unitsPerOne_pos.ne'
  rw [abs_value, e.isWhole_iff.1 h, Nat.cast_mul, mul_div_cancel_right₀ _ hpos]

theorem value_eq_abs : e.value = if e.isBelowZero then -|e.value| else |e.value| := by
  by_cases h : e.value < 0
  · rw [if_pos (e.value_neg_iff.1 h), abs_of_neg h, neg_neg]
  · rw [if_neg (mt e.value_neg_iff.2 h), abs_of_nonneg (not_lt.1 h)]

theorem isWhole_iff_exists_int : e.isWhole = true ↔ ∃ n : ℤ, e.value = n := by
  constructor
  · intro h
    rw [e.value_eq_abs, e.abs_value_of_isWhole h]
    split
    · exact ⟨-e.whole, by push_cast; rfl⟩
    · exact ⟨e.whole, (Int.cast_natCast _).symm⟩
  · rintro ⟨n, hn⟩
    have hpos : (unitsPerOne : ℚ) ≠ 0 := Nat.cast_ne_zero.2 unitsPerOne_pos.ne'
    have hunits : (e.units : ℚ) = (n.natAbs * unitsPerOne : ℕ) := by
      rw [Nat.cast_mul, Nat.cast_natAbs, Int.cast_abs, ← hn, abs_value, div_mul_cancel₀ _ hpos]
    rw [isWhole, Nat.cast_injective hunits, Nat.mul_mod_left]
    rfl

end Whole

end Exact

/-! ### Zero -/

/-- Both zeros denote zero, and no other number does. -/
theorem unpackedValue?_eq_zero_iff {u : UnpackedFloat} :
    unpackedValue? u = some 0 ↔ ∃ sign, u = .zero sign := by
  constructor
  · intro h
    cases u with
    | zero sign => exact ⟨sign, rfl⟩
    | finite sign mantissa exponent hmantissa =>
      have hne : (mantissa : ℚ) * 2 ^ exponent ≠ 0 :=
        mul_ne_zero (Nat.cast_ne_zero.2 hmantissa.ne') (zpow_ne_zero _ two_ne_zero)
      have hzero := Option.some.inj h
      cases sign with
      | positive => exact absurd hzero hne
      | negative => exact absurd (neg_eq_zero.1 hzero) hne
    | infinity sign => cases h
    | notANumber => cases h
  · rintro ⟨sign, rfl⟩
    rfl

theorem beq_zero_iff {x : Float} {value : ℚ} (hx : floatValue? x = some value) :
    (x == 0) = true ↔ value = 0 := by
  have hzero : floatValue? 0 = some 0 := by decide +kernel
  obtain ⟨sign, hsign⟩ := unpackedValue?_eq_zero_iff.1 hzero
  have hbeq : (x == 0) = (x.toModel.unpack.compare (0 : Float).toModel.unpack == some .eq) := rfl
  rw [floatValue?] at hx
  rw [hbeq, hsign]
  constructor
  · intro h
    cases hunpack : x.toModel.unpack with
    | zero s =>
      rw [hunpack] at hx
      exact (Option.some.inj hx).symm
    | finite s mantissa exponent hmantissa =>
      rw [hunpack] at h
      cases s <;> cases h
    | infinity s =>
      rw [hunpack] at hx
      cases hx
    | notANumber =>
      rw [hunpack] at hx
      cases hx
  · rintro rfl
    obtain ⟨s, hs⟩ := unpackedValue?_eq_zero_iff.1 hx
    rw [hs]
    rfl

/-! ### What the bits stand for -/

section Bits

variable (x : Float)

/-- The bits of the mantissa that are stored. -/
abbrev mantissaBits : BitVec 52 := @UnpackedFloat.unpackMantissa .binary64 x.toModel.toBits.toBitVec

abbrev exponentBits : BitVec 11 := @UnpackedFloat.unpackExponent .binary64 x.toModel.toBits.toBitVec

abbrev signBit : BitVec 1 := @UnpackedFloat.unpackSign .binary64 x.toModel.toBits.toBitVec

theorem toNat_mantissaBits : (mantissaBits x).toNat = x.toBits.toNat % Nat.pow 2 52 := by
  rw [mantissaBits, UnpackedFloat.unpackMantissa, BitVec.toNat_cast, BitVec.extractLsb_toNat,
    Nat.shiftRight_zero]
  rfl

theorem toNat_exponentBits : (exponentBits x).toNat = x.toBits.toNat / Nat.pow 2 52 % 2048 := by
  rw [exponentBits, UnpackedFloat.unpackExponent, BitVec.toNat_cast, BitVec.extractLsb_toNat,
    Nat.shiftRight_eq_div_pow]
  rfl

theorem toNat_signBit : (signBit x).toNat = x.toBits.toNat / Nat.pow 2 63 % 2 := by
  rw [signBit, UnpackedFloat.unpackSign, BitVec.toNat_cast, BitVec.extractLsb_toNat,
    Nat.shiftRight_eq_div_pow]
  rfl

theorem ofBitVec_signBit : UnpackedFloat.Sign.ofBitVec (signBit x) =
    if Nat.pow 2 63 ≤ x.toBits.toNat then .negative else .positive := by
  have hlt := x.toBits.toNat_lt
  have hzero : signBit x = 0#1 ↔ ¬Nat.pow 2 63 ≤ x.toBits.toNat := by
    rw [← BitVec.toNat_inj, toNat_signBit, Nat.pow_eq, BitVec.toNat_ofNat]
    omega
  rw [UnpackedFloat.Sign.ofBitVec]
  by_cases hle : Nat.pow 2 63 ≤ x.toBits.toNat
  · rw [if_pos hle, if_neg fun h => hzero.1 h hle]
  · rw [if_neg hle, if_pos (hzero.2 hle)]

/-- The leading one of a normal number stands before the stored bits. -/
theorem toNat_one_append_mantissaBits :
    (1#1 ++ mantissaBits x).toNat = Nat.pow 2 52 + x.toBits.toNat % Nat.pow 2 52 := by
  have hlt := Nat.mod_lt x.toBits.toNat (Nat.two_pow_pos 52)
  rw [BitVec.toNat_append, toNat_mantissaBits]
  exact (Nat.two_pow_add_eq_or_of_lt hlt 1).symm

/-- A number of units is a number with a power of two. -/
theorem mul_pow_div_unitsPerOne (mantissa exponent : Nat) :
    ((mantissa * Nat.pow 2 exponent : Nat) : ℚ) / unitsPerOne =
      mantissa * 2 ^ ((exponent : ℤ) - (1074 : ℕ)) := by
  unfold unitsPerOne
  generalize 1074 = k
  rw [Nat.pow_eq, Nat.pow_eq, zpow_sub₀ two_ne_zero, zpow_natCast, zpow_natCast]
  push_cast
  exact mul_div_assoc _ _ _

/-- The units that are read off the bits have the value of the number. -/
theorem floatValue?_eq : floatValue? x = (Exact.ofFloat? x).map Exact.value := by
  have hexponent := toNat_exponentBits x
  have hall : exponentBits x = -1#_ ↔ x.toBits.toNat / Nat.pow 2 52 % 2048 = 2047 := by
    rw [← hexponent, ← BitVec.toNat_inj]
    rfl
  have hnone : exponentBits x = 0#_ ↔ x.toBits.toNat / Nat.pow 2 52 % 2048 = 0 := by
    rw [← hexponent, ← BitVec.toNat_inj]
    rfl
  have hzero : mantissaBits x = 0#_ ↔ x.toBits.toNat % Nat.pow 2 52 = 0 := by
    rw [← toNat_mantissaBits, ← BitVec.toNat_inj]
    rfl
  rw [floatValue?, Float.Model.unpack, UnpackedFloat.unpack, ofBitVec_signBit, Exact.ofFloat?]
  dsimp only
  by_cases hinfinite : x.toBits.toNat / Nat.pow 2 52 % 2048 = 2047
  · rw [if_pos (hall.2 hinfinite), if_pos hinfinite]
    split <;> rfl
  · rw [if_neg (mt hall.1 hinfinite), if_neg hinfinite]
    by_cases hsmall : x.toBits.toNat / Nat.pow 2 52 % 2048 = 0
    · rw [if_pos (hnone.2 hsmall), if_pos hsmall, Option.map_some, Exact.value_mk]
      split
      next hmantissa =>
        rw [unpackedValue?, hzero.1 hmantissa, Nat.cast_zero, zero_div, signed_zero]
      next hmantissa =>
        have hunits := mul_pow_div_unitsPerOne (x.toBits.toNat % Nat.pow 2 52) 0
        rw [show Nat.pow 2 0 = 1 from rfl, mul_one] at hunits
        rw [unpackedValue?, toNat_mantissaBits, hexponent, hsmall, hunits]
        rfl
    · have hshift : ((x.toBits.toNat / Nat.pow 2 52 % 2048 : ℕ) : ℤ) -
          (Format.binary64.exponentBias + 52) =
          ((x.toBits.toNat / Nat.pow 2 52 % 2048 - 1 : ℕ) : ℤ) - (1074 : ℕ) := by
        have hbias : Format.binary64.exponentBias = 1023 := rfl
        omega
      have hunits := mul_pow_div_unitsPerOne (Nat.pow 2 52 + x.toBits.toNat % Nat.pow 2 52)
        (x.toBits.toNat / Nat.pow 2 52 % 2048 - 1)
      rw [if_neg (mt hnone.1 hsmall), if_neg hsmall, Option.map_some, Exact.value_mk, unpackedValue?,
        hunits, hexponent, toNat_one_append_mantissaBits, ← hshift]
      rfl

end Bits

end PatternText
