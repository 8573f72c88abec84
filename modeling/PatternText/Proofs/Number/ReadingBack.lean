import PatternText.Number.Reading
import PatternText.Proofs.Number.Rounding
import PatternText.Proofs.Number.Shortest

/-! Decimals that are read as a number. A number is stored as its first 53 binary digits and how many
come behind them, and a quotient is rounded to it just when it lies in the interval around it. So the
decimals that are read as a number are those that lie in its interval, and the shortest form of a whole
number has the fewest digits of them. -/

namespace PatternText

open Float.Model

/-! ### Words of numbers -/

theorem roundUnits_le (num den : Nat) : roundUnits num den ≤ 2047 * 2 ^ 52 := Nat.min_le_right _ _

/-- A word that is not beyond those of the infinities is that of the number it stands for. -/
theorem toBits_ofBits {b : UInt64} (h : b.toNat % 2 ^ 63 ≤ 2047 * 2 ^ 52) :
    (Float.ofBits b).toBits = b := by
  have hvalid : Format.binary64.Valid b.toBitVec := by
    constructor
    intro hexponent hmantissa
    have hall : b.toNat / 2 ^ 52 % 2048 = 2047 := by
      have hnat := congrArg BitVec.toNat hexponent
      rw [UnpackedFloat.unpackExponent, BitVec.toNat_cast, BitVec.extractLsb_toNat,
        Nat.shiftRight_eq_div_pow] at hnat
      exact hnat
    have hsome : b.toNat % 2 ^ 52 ≠ 0 := by
      intro hnone
      refine hmantissa (BitVec.eq_of_toNat_eq ?_)
      rw [UnpackedFloat.unpackMantissa, BitVec.toNat_cast, BitVec.extractLsb_toNat, Nat.shiftRight_zero]
      exact hnone
    omega
  have hback := Float.ofBits_toBits ⟨⟨b, hvalid⟩⟩
  exact congrArg Float.toBits hback

theorem toNat_toBits_floatOfUnits (negative : Bool) (num den : Nat) :
    (floatOfUnits negative num den).toBits.toNat =
      (if negative then 2 ^ 63 else 0) + roundUnits num den := by
  have hle := roundUnits_le num den
  obtain ⟨word, heq⟩ : ∃ word, word = (if negative then 2 ^ 63 else 0) + roundUnits num den := ⟨_, rfl⟩
  have hword : (UInt64.ofNat word).toNat = word := by
    rw [UInt64.toNat_ofNat', heq]
    split <;> omega
  have hbits : (Float.ofBits (UInt64.ofNat word)).toBits = UInt64.ofNat word := by
    refine toBits_ofBits ?_
    rw [hword, heq]
    split <;> omega
  rw [← heq]
  refine (congrArg (fun word => (Float.ofBits (UInt64.ofNat word)).toBits.toNat) heq.symm).trans ?_
  rw [hbits, hword]

/-! ### Rounding on the grid of a number -/

/-- `num` lies between the ends of the interval around so many steps: half a step away, a quarter below a
power of two unless that is among the smallest numbers, and at an end only if the last binary digit is
zero. -/
def Rounds (significand k num step : Nat) : Prop :=
  4 * (significand * step) ≤ 4 * num + (if significand = 2 ^ 52 ∧ 0 < k then 1 else 2) * step ∧
    4 * num ≤ 4 * (significand * step) + 2 * step ∧
    (significand % 2 = 1 →
      4 * (significand * step) ≠ 4 * num + 2 * step ∧ 4 * num ≠ 4 * (significand * step) + 2 * step)

theorem Rounds.le_add {significand k num step : Nat} (h : Rounds significand k num step) :
    4 * (significand * step) ≤ 4 * num + 2 * step :=
  h.1.trans (Nat.add_le_add_left (Nat.mul_le_mul_right step (by split <;> decide)) _)

/-- Above a power of two the interval is what is rounded on the grid of the number itself. -/
theorem rounds_of_roundHalfEven {significand k num step : Nat} (hstep : 0 < step)
    (hnum : k = 0 ∨ 2 ^ 52 * step ≤ num) (h : roundHalfEven num step = significand) :
    Rounds significand k num step := by
  obtain ⟨hbelow, habove, htie⟩ := (roundHalfEven_eq_iff hstep significand).1 h
  have hleast : significand = 2 ^ 52 → significand * step = 2 ^ 52 * step := congrArg (· * step)
  unfold Rounds
  generalize significand * step = point at *
  refine ⟨?_, by omega, fun _ => by omega⟩
  split <;> omega

/-- Just below it the grid is finer. -/
theorem rounds_of_roundHalfEven_finer {k num step : Nat} (hstep : 0 < step)
    (h : roundHalfEven num step = 2 ^ 53) : Rounds (2 ^ 52) (k + 1) num (2 * step) := by
  obtain ⟨hbelow, habove, -⟩ := (roundHalfEven_eq_iff hstep _).1 h
  unfold Rounds
  rw [if_pos ⟨rfl, Nat.succ_pos k⟩]
  exact ⟨by omega, by omega, fun hodd => absurd hodd (by decide)⟩

theorem Rounds.roundHalfEven_eq {significand k num step : Nat} (hstep : 0 < step)
    (h : Rounds significand k num step) : roundHalfEven num step = significand := by
  have hbelow := h.le_add
  obtain ⟨-, habove, hopen⟩ := h
  rw [roundHalfEven_eq_iff hstep]
  generalize significand * step = point at *
  exact ⟨by omega, by omega, fun htie => by omega⟩

/-- What is not below a power of two has the order of magnitude of the number. -/
theorem Rounds.order {significand k num step : Nat} (hstep : 0 < step)
    (hlow : k = 0 ∨ 2 ^ 52 ≤ significand) (hhigh : significand < 2 ^ 53)
    (h : Rounds significand k num step)
    (hnum : ¬(num < significand * step ∧ significand = 2 ^ 52 ∧ 0 < k)) :
    (k = 0 ∨ 2 ^ 52 * step ≤ num) ∧ num < 2 ^ 53 * step := by
  have hbelow := h.le_add
  obtain ⟨-, habove, -⟩ := h
  have hleast : significand = 2 ^ 52 → significand * step = 2 ^ 52 * step := congrArg (· * step)
  have hmore (n m : Nat) (hlt : n < m) : n * step + step ≤ m * step := by
    rw [← Nat.succ_mul]
    exact Nat.mul_le_mul_right step hlt
  have hgreatest := hmore significand (2 ^ 53) hhigh
  have hnext := hmore (2 ^ 52) significand
  clear hmore
  generalize significand * step = point at *
  refine ⟨?_, by omega⟩
  rcases hlow with hnone | hlow
  · exact .inl hnone
  · rcases Nat.lt_or_eq_of_le hlow with hlt | heq
    · have := hnext hlt
      exact .inr (by omega)
    · have := hleast heq.symm
      omega

/-- What is just below a power of two is rounded to it on the finer grid. -/
theorem Rounds.finer {k num step : Nat} (hstep : 0 < step) (h : Rounds (2 ^ 52) (k + 1) num (2 * step))
    (hnum : num < 2 ^ 52 * (2 * step)) :
    2 ^ 52 * step ≤ num ∧ num < 2 ^ 53 * step ∧ roundHalfEven num step = 2 ^ 53 := by
  obtain ⟨hbelow, habove, -⟩ := h
  rw [if_pos ⟨rfl, Nat.succ_pos k⟩] at hbelow
  exact ⟨by omega, by omega, (roundHalfEven_eq_iff hstep _).2 ⟨by omega, by omega, fun _ => by decide⟩⟩

/-! ### Stored numbers -/

/-- The magnitude of a number, as it is stored: so many binary digits, and so many places behind them. -/
structure Stored (units bits : Nat) (significand k : Nat) : Prop where
  units_eq : units = significand * 2 ^ k
  low : k = 0 ∨ 2 ^ 52 ≤ significand
  high : significand < 2 ^ 53
  k_le : k ≤ 2045
  bits_eq : bits = k * 2 ^ 52 + significand

theorem exists_stored {x : Float} {e : Exact} (h : Exact.ofFloat? x = some e) :
    ∃ significand k, Stored e.units (x.toBits.toNat % 2 ^ 63) significand k := by
  unfold Exact.ofFloat? at h
  simp only [Nat.pow_eq] at h
  have hfraction : x.toBits.toNat % 2 ^ 52 < 2 ^ 52 := Nat.mod_lt _ (Nat.two_pow_pos 52)
  split at h
  · cases h
  next hfinite =>
    split at h
    next hsmall =>
      cases h
      refine ⟨x.toBits.toNat % 2 ^ 52, 0, ⟨(Nat.mul_one _).symm, .inl rfl, ?_, ?_, ?_⟩⟩ <;> omega
    next hnormal =>
      cases h
      exact ⟨2 ^ 52 + x.toBits.toNat % 2 ^ 52, x.toBits.toNat / 2 ^ 52 % 2048 - 1,
        ⟨rfl, by omega, by omega, by omega, by omega⟩⟩

namespace Stored

variable {units bits significand k : Nat}

theorem log2_eq (h : Stored units bits significand k) : units.log2 - 52 = k := by
  obtain ⟨rfl, hlow, hhigh, -, -⟩ := h
  rcases hlow with rfl | hlow
  · have := log2_lt_of_lt_pow (by decide) hhigh
    rw [Nat.pow_zero, Nat.mul_one]
    omega
  · have hlog : significand.log2 = 52 := (Nat.log2_eq_iff (by omega)).2 ⟨hlow, hhigh⟩
    rw [log2_mul_two_pow (by omega), hlog, Nat.add_sub_cancel_left]

theorem div_eq (h : Stored units bits significand k) : units / 2 ^ k = significand := by
  rw [h.units_eq, Nat.mul_div_cancel _ (Nat.two_pow_pos k)]

/-- The ends of the interval are half a step away, a quarter below a power of two, and belong to it when
the last binary digit is zero. -/
theorem contains_iff (h : Stored units bits significand k) {num den : Nat} (hden : 0 < den) :
    (RoundingInterval.ofUnits units).contains (4 * num) den = true ↔
      Rounds significand k num (den * 2 ^ k) := by
  have hlog := h.log2_eq
  have hdiv := h.div_eq
  have hunits := h.units_eq
  have hclosed : (RoundingInterval.ofUnits units).closed = (significand % 2 == 0) := by
    unfold RoundingInterval.ofUnits
    simp only [Nat.pow_eq, hlog, hdiv]
  have hlow : (RoundingInterval.ofUnits units).low * den = 4 * (significand * (den * 2 ^ k)) -
      (if significand = 2 ^ 52 ∧ 0 < k then 1 else 2) * (den * 2 ^ k) := by
    have hgap : (if significand = 2 ^ 52 ∧ 0 < k then 1 else 2) * (den * 2 ^ k) =
        (if significand = 2 ^ 52 ∧ 0 < k then 2 ^ k else 2 * 2 ^ k) * den := by
      split <;> ring
    have hpoint : 4 * (significand * (den * 2 ^ k)) = 4 * units * den := by
      rw [hunits]
      ring
    rw [hgap, hpoint, ← Nat.sub_mul]
    unfold RoundingInterval.ofUnits
    simp only [Nat.pow_eq, hlog, hdiv]
  have hhigh : (RoundingInterval.ofUnits units).high * den =
      4 * (significand * (den * 2 ^ k)) + 2 * (den * 2 ^ k) := by
    unfold RoundingInterval.ofUnits
    simp only [Nat.pow_eq, hlog]
    rw [hunits]
    ring
  have hstep : 0 < den * 2 ^ k := Nat.mul_pos hden (Nat.two_pow_pos k)
  unfold RoundingInterval.contains Rounds
  rw [hclosed, hlow, hhigh]
  clear hlow hhigh hclosed hlog hdiv hunits h
  by_cases hodd : significand % 2 = 1
  · have hle : den * 2 ^ k ≤ significand * (den * 2 ^ k) := Nat.le_mul_of_pos_left _ (by omega)
    rw [if_neg (by simp [hodd]), if_neg (by omega), Bool.and_eq_true, decide_eq_true_eq,
      decide_eq_true_eq]
    omega
  · rw [if_pos (by simpa using hodd), Bool.and_eq_true, decide_eq_true_eq, decide_eq_true_eq]
    omega

theorem grid_mul (exponent j den : Nat) : 2 ^ (exponent + j) * den = 2 ^ exponent * (den * 2 ^ j) := by
  rw [Nat.pow_add]
  ring

/-- The quotient is rounded to the number on the grid of the number, or on the next finer one to the power
of two that follows there. -/
theorem roundHalfEven_of_roundUnits (h : Stored units bits significand k) {num den : Nat}
    (hden : 0 < den) (hround : roundUnits num den = bits) :
    ((k = 0 ∨ 2 ^ 52 * (den * 2 ^ k) ≤ num) ∧ roundHalfEven num (den * 2 ^ k) = significand) ∨
      ∃ j, k = j + 1 ∧ significand = 2 ^ 52 ∧ roundHalfEven num (den * 2 ^ j) = 2 ^ 53 := by
  obtain ⟨-, hlow, hhigh, hk, rfl⟩ := h
  obtain ⟨hnum, hrlow, hrhigh⟩ := roundHalfEven_onGrid num hden
  unfold roundUnits at hround
  simp only [Nat.pow_eq] at hround
  generalize (num / den).log2 - 52 = j at *
  rw [grid_mul 52 j den] at hnum
  obtain ⟨rounded, hrounded⟩ : ∃ r, roundHalfEven num (den * 2 ^ j) = r := ⟨_, rfl⟩
  rw [hrounded] at hround hrlow hrhigh
  have hsum : j * 2 ^ 52 + rounded = k * 2 ^ 52 + significand := by omega
  clear hround
  have hcases : j = k ∨ k = j + 1 := by omega
  rcases hcases with rfl | rfl
  · exact .inl ⟨hnum, hrounded.trans (by omega)⟩
  · exact .inr ⟨j, rfl, by omega, hrounded.trans (by omega)⟩

theorem roundUnits_of_roundHalfEven (h : Stored units bits significand k) {num den j rounded : Nat}
    (hden : 0 < den) (hnum : j = 0 ∨ 2 ^ 52 * (den * 2 ^ j) ≤ num)
    (hlt : num < 2 ^ 53 * (den * 2 ^ j)) (hrounded : roundHalfEven num (den * 2 ^ j) = rounded)
    (hbits : j * 2 ^ 52 + rounded = bits) : roundUnits num den = bits := by
  obtain ⟨-, -, hhigh, hk, hstored⟩ := h
  rw [← grid_mul] at hnum hlt
  unfold roundUnits
  simp only [Nat.pow_eq]
  rw [log2_div_sub_eq hden hnum hlt, hrounded, hbits]
  omega

/-- A quotient of units is rounded to the number just when it lies in the interval around it. -/
theorem roundUnits_eq_iff (h : Stored units bits significand k) {num den : Nat} (hden : 0 < den) :
    roundUnits num den = bits ↔ (RoundingInterval.ofUnits units).contains (4 * num) den = true := by
  have hstep (j : Nat) : 0 < den * 2 ^ j := Nat.mul_pos hden (Nat.two_pow_pos j)
  have hhalf (j : Nat) : den * 2 ^ (j + 1) = 2 * (den * 2 ^ j) := by
    rw [Nat.pow_succ]
    ring
  rw [h.contains_iff hden]
  constructor
  · intro hround
    rcases h.roundHalfEven_of_roundUnits hden hround with ⟨hnum, hrounded⟩ | ⟨j, rfl, rfl, hrounded⟩
    · exact rounds_of_roundHalfEven (hstep k) hnum hrounded
    · rw [hhalf]
      exact rounds_of_roundHalfEven_finer (hstep j) hrounded
  · intro hrounds
    by_cases hfiner : num < significand * (den * 2 ^ k) ∧ significand = 2 ^ 52 ∧ 0 < k
    · obtain ⟨hlt, rfl, hpos⟩ := hfiner
      obtain ⟨j, rfl⟩ := Nat.exists_eq_add_one_of_ne_zero hpos.ne'
      rw [hhalf] at hrounds hlt
      obtain ⟨hnum, hlt', hrounded⟩ := hrounds.finer (hstep j) hlt
      refine h.roundUnits_of_roundHalfEven hden (.inr hnum) hlt' hrounded ?_
      rw [h.bits_eq]
      omega
    · obtain ⟨hnum, hlt⟩ := hrounds.order (hstep k) h.low h.high hfiner
      exact h.roundUnits_of_roundHalfEven hden hnum hlt (hrounds.roundHalfEven_eq (hstep k))
        h.bits_eq.symm

end Stored

/-! ### Numbers of units -/

namespace Exact

variable {x : Float} {e : Exact}

theorem toNat_toBits (h : ofFloat? x = some e) :
    x.toBits.toNat = (if e.negative then 2 ^ 63 else 0) + x.toBits.toNat % 2 ^ 63 := by
  have hlt := x.toBits.toNat_lt
  have hnegative : e.negative = decide (2 ^ 63 ≤ x.toBits.toNat) := by
    unfold ofFloat? at h
    simp only [Nat.pow_eq] at h
    split at h
    · cases h
    · split at h <;> cases h <;> rfl
  rw [hnegative]
  simp only [decide_eq_true_eq]
  split <;> omega

theorem units_eq_of_value_eq {e e' : Exact} (h : e.value = e'.value) : e.units = e'.units := by
  have hpos : (unitsPerOne : ℚ) ≠ 0 := Nat.cast_ne_zero.2 unitsPerOne_pos.ne'
  have habs := congrArg (|·|) h
  rw [e.abs_value, e'.abs_value, div_left_inj' hpos] at habs
  exact Nat.cast_injective habs

end Exact

section Units

variable {num den : Nat} (hden : 0 < den) {negative : Bool} {value : ℚ}
include hden

/-- What is rounded to a number lies in the interval around it. -/
theorem contains_of_floatOfUnits {e : Exact} (h : floatValue? (floatOfUnits negative num den) = some value)
    (he : e.value = value) : (RoundingInterval.ofUnits e.units).contains (4 * num) den = true := by
  rw [floatValue?_eq, Option.map_eq_some_iff] at h
  obtain ⟨e', he', hvalue⟩ := h
  obtain ⟨significand, k, hstored⟩ := exists_stored he'
  rw [Exact.units_eq_of_value_eq (he.trans hvalue.symm)]
  refine (hstored.roundUnits_eq_iff hden).1 ?_
  have hle := roundUnits_le num den
  rw [toNat_toBits_floatOfUnits]
  split <;> omega

/-- What lies in the interval around a number is rounded to it. -/
theorem floatOfUnits_of_contains {x : Float} {e : Exact} (he : Exact.ofFloat? x = some e)
    (h : (RoundingInterval.ofUnits e.units).contains (4 * num) den = true) :
    floatOfUnits e.negative num den = x := by
  obtain ⟨significand, k, hstored⟩ := exists_stored he
  refine Float.toBits_inj.1 (UInt64.toNat_inj.1 ?_)
  rw [toNat_toBits_floatOfUnits, (hstored.roundUnits_eq_iff hden).2 h]
  exact (Exact.toNat_toBits he).symm

end Units

/-! ### Decimals -/

namespace Decimal

/-- The digits times the power of ten are read as a number of this value, with one sign or the other. -/
def ReadsAs (d : Decimal) (value : ℚ) : Prop :=
  ∃ negative, floatValue? (floatOfDecimal negative (Nat.toDigits 10 d.digits) d.exponent) = some value

/-- The decimal is read as a number of this value, and none with fewer digits is. -/
structure IsShortest (d : Decimal) (value : ℚ) : Prop where
  reads : d.ReadsAs value
  fewest (other : Decimal) (h : other.ReadsAs value) :
    (Nat.toDigits 10 d.digits).length ≤ (Nat.toDigits 10 other.digits).length

/-- No zeros stand in front. -/
theorem dropWhile_toDigits {n : Nat} (hn : 0 < n) :
    (Nat.toDigits 10 n).dropWhile (· == '0') = Nat.toDigits 10 n := by
  cases hdigits : Nat.toDigits 10 n with
  | nil => rfl
  | cons c cs =>
    have hne : c ≠ '0' := by
      rintro rfl
      have hvalue := congrArg (Nat.ofDigitChars 10 · 0) (toDigits_head_zero (congrArg List.head? hdigits))
      rw [Nat.ofDigitChars_ten_toDigits] at hvalue
      exact hn.ne' hvalue
    rw [List.dropWhile_cons_of_neg (by simpa using hne)]

theorem floatOfUnits_gridStep (negative : Bool) (digits : Nat) (exponent : Int) :
    floatOfUnits negative (digits * (gridStep exponent).1) (gridStep exponent).2 =
      if 0 ≤ exponent then floatOfRatio negative (digits * Nat.pow 10 exponent.toNat) 1
      else floatOfRatio negative digits (Nat.pow 10 (-exponent).toNat) := by
  rw [gridStep]
  split
  next => rw [floatOfRatio, Nat.mul_assoc]
  next => rw [floatOfRatio]

/-- Digits that do not stand for zero are rounded from their quotient in units, unless there are so many of
them or of their places that the order of magnitude is not even looked at. -/
theorem floatOfDecimal_toDigits {digits : Nat} (hdigits : 0 < digits) (negative : Bool) (exponent : Int) :
    floatOfDecimal negative (Nat.toDigits 10 digits) exponent =
      if exponent + (Nat.toDigits 10 digits).length < -400 then floatOfUnits negative 0 1
      else if 400 < exponent + (Nat.toDigits 10 digits).length then
        if negative then -infinity else infinity
      else floatOfUnits negative (digits * (gridStep exponent).1) (gridStep exponent).2 := by
  rw [floatOfDecimal, dropWhile_toDigits hdigits, Nat.ofDigitChars_ten_toDigits, floatOfUnits_gridStep]
  simp only [hdigits.ne', decide_false, Bool.false_or, decide_eq_true_eq]

theorem floatValue?_zero (negative : Bool) : floatValue? (floatOfUnits negative 0 1) = some 0 := by
  cases negative <;> decide +kernel

/-- Digits that are read as a number other than zero are in the interval around it. -/
theorem contains_of_floatOfDecimal {negative : Bool} {digits : Nat} {exponent : Int} {value : ℚ}
    (h : floatValue? (floatOfDecimal negative (Nat.toDigits 10 digits) exponent) = some value)
    (hvalue : value ≠ 0) {e : Exact} (he : e.value = value) :
    (RoundingInterval.ofUnits e.units).contains (4 * (digits * (gridStep exponent).1))
      (gridStep exponent).2 = true := by
  have hnonzero : floatValue? (floatOfUnits negative 0 1) ≠ some value := by
    rw [floatValue?_zero]
    exact fun heq => hvalue (Option.some.inj heq).symm
  have hfinite : floatValue? (if negative = true then -infinity else infinity) ≠ some value := by
    have hinfinite : floatValue? (if negative = true then -infinity else infinity) = none := by
      cases negative <;> decide +kernel
    rw [hinfinite]
    nofun
  rcases digits.eq_zero_or_pos with rfl | hdigits
  · exact absurd h hnonzero
  · rw [floatOfDecimal_toDigits hdigits] at h
    split at h
    next => exact absurd h hnonzero
    next =>
      split at h
      next => exact absurd h hfinite
      next => exact contains_of_floatOfUnits (gridStep_pos exponent) h he

/-- A decimal in the interval around a number is read as that number, if its order of magnitude is looked
at. -/
theorem floatOfDecimal_of_contains {x : Float} {e : Exact} (he : Exact.ofFloat? x = some e) {digits : Nat}
    (hdigits : 0 < digits) {exponent : Int} (hlow : -400 ≤ exponent + (Nat.toDigits 10 digits).length)
    (hhigh : exponent + (Nat.toDigits 10 digits).length ≤ 400)
    (h : (RoundingInterval.ofUnits e.units).contains (4 * (digits * (gridStep exponent).1))
      (gridStep exponent).2 = true) :
    floatOfDecimal e.negative (Nat.toDigits 10 digits) exponent = x := by
  rw [floatOfDecimal_toDigits hdigits, if_neg (Int.not_lt.2 hlow), if_neg (Int.not_lt.2 hhigh)]
  exact floatOfUnits_of_contains (gridStep_pos exponent) he h

end Decimal

/-! ### Whole numbers -/

theorem Decimal.isShortest_zero : IsShortest ⟨0, 0⟩ 0 where
  reads := ⟨false, by decide +kernel⟩
  fewest _ _ := Nat.length_toDigits_pos

theorem Exact.whole_lt {x : Float} {e : Exact} (he : Exact.ofFloat? x = some e) {most : Nat}
    (hmost : 1024 ≤ most) : e.whole < 2 ^ most := by
  obtain ⟨significand, k, hstored⟩ := exists_stored he
  have hk := hstored.k_le
  rw [Exact.whole, Nat.div_lt_iff_lt_mul unitsPerOne_pos, pow_mul_unitsPerOne, hstored.units_eq]
  calc
    significand * 2 ^ k < 2 ^ 53 * 2 ^ k := Nat.mul_lt_mul_of_pos_right hstored.high (Nat.two_pow_pos k)
    _ = 2 ^ (53 + k) := (Nat.pow_add ..).symm
    _ ≤ 2 ^ (most + 1074) := Nat.pow_le_pow_right Nat.two_pos (by omega)

/-- The orders of magnitude of all numbers are looked at. -/
theorem Near.length_toDigits_le {n m most places : Nat} (h : Near n m) (hn : n < 2 ^ most)
    (hplaces : most < 3 * places) : (Nat.toDigits 10 m).length ≤ places := by
  rw [Nat.length_toDigits_le_iff (by decide) (by omega)]
  have habove := h.above
  calc
    m < 2 * 2 ^ most := by omega
    _ = 2 ^ (most + 1) := (Nat.pow_succ' ..).symm
    _ ≤ 2 ^ (3 * places) := Nat.pow_le_pow_right Nat.two_pos hplaces
    _ = 8 ^ places := Nat.pow_mul ..
    _ ≤ 10 ^ places := Nat.pow_le_pow_left (by decide) places

/-- The shortest form of a whole number reads back, also with its zeros written out, and no decimal with
fewer digits does. -/
theorem Decimal.isShortest_shortest {x : Float} {e : Exact} (he : Exact.ofFloat? x = some e)
    (hwhole : e.isWhole = true) (hpos : 0 < e.whole) {digits exponent : Nat}
    (hshortest : shortest (e.whole * unitsPerOne) = ⟨digits, exponent⟩) :
    IsShortest ⟨digits, exponent⟩ e.value ∧
      floatOfDecimal e.negative (Nat.toDigits 10 (digits * 10 ^ exponent)) 0 = x := by
  obtain ⟨_, _, heq, hmem, -, -⟩ := exists_shortest_whole hpos
  cases hshortest.symm.trans heq
  have hunits := e.isWhole_iff.1 hwhole
  have hnear := near_of_quarters_mem hpos hmem
  have hdigits : 0 < digits := Nat.pos_of_mul_pos_right (hnear.pos hpos)
  have hlength : (Nat.toDigits 10 (digits * 10 ^ exponent)).length =
      (Nat.toDigits 10 digits).length + exponent := by
    rw [toDigits_mul_pow hdigits, List.length_append, List.length_replicate]
  have horder : (Nat.toDigits 10 (digits * 10 ^ exponent)).length ≤ 400 :=
    hnear.length_toDigits_le (Exact.whole_lt he le_rfl) (by decide)
  have hvalue : floatValue? x = some e.value := by
    rw [floatValue?_eq, he]
    rfl
  have hne : e.value ≠ 0 := by
    rw [← abs_pos, e.abs_value_of_isWhole hwhole]
    exact Nat.cast_pos.2 hpos
  refine ⟨⟨⟨e.negative, ?_⟩, fun other hother => ?_⟩, ?_⟩
  · have hcontains := (contains_iff_quarters_mem ..).2 (hunits.symm ▸ hmem)
    have hreads := floatOfDecimal_of_contains he hdigits (by omega) (by omega) hcontains
    dsimp only
    rw [hreads, hvalue]
  · obtain ⟨negative, hreads⟩ := hother
    have hcontains := contains_of_floatOfDecimal hreads hne rfl
    rw [contains_iff_quarters_mem, hunits] at hcontains
    have hle := length_shortest_le hpos hcontains
    rwa [hshortest] at hle
  · rw [← zero_add (exponent : Int), ← quarters_mul_pow, ← hunits, ← contains_iff_quarters_mem] at hmem
    exact floatOfDecimal_of_contains he (hnear.pos hpos) (by omega) (by omega) hmem

/-! ### Texts of digits -/

theorem isDigit_of_mem_toDigits {n : Nat} : ∀ c ∈ Nat.toDigits 10 n, c.isDigit = true :=
  fun _ hc => Nat.isDigit_of_mem_toDigits (by decide) (by decide) hc

theorem readMagnitude?_toDigits (negative : Bool) (n : Nat) :
    readMagnitude? negative (Nat.toDigits 10 n) = some (floatOfDecimal negative (Nat.toDigits 10 n) 0) := by
  have hwhole : (Nat.toDigits 10 n).takeWhile Char.isDigit = Nat.toDigits 10 n :=
    List.takeWhile_eq_self_iff.2 isDigit_of_mem_toDigits
  have hrest : (Nat.toDigits 10 n).dropWhile Char.isDigit = [] :=
    List.dropWhile_eq_nil_iff.2 isDigit_of_mem_toDigits
  have hempty : (Nat.toDigits 10 n).isEmpty = false := List.isEmpty_eq_false_iff.2 Nat.toDigits_ne_nil
  unfold readMagnitude?
  rw [hwhole, hrest]
  dsimp only
  rw [hempty, List.append_nil]
  rfl

/-- Digits without point and exponent, with a sign or without. -/
theorem readFloat?_toDigits (negative : Bool) (n : Nat) :
    readFloat? ((if negative then ['-'] else []) ++ Nat.toDigits 10 n) =
      some (floatOfDecimal negative (Nat.toDigits 10 n) 0) := by
  rw [← readMagnitude?_toDigits]
  cases negative with
  | true => rfl
  | false =>
    rw [if_neg Bool.false_ne_true, List.nil_append]
    have hdigits := isDigit_of_mem_toDigits (n := n)
    -- a digit is no sign
    unfold readFloat?
    split
    next heq => cases hdigits '-' (heq ▸ List.mem_cons_self)
    next heq => cases hdigits '+' (heq ▸ List.mem_cons_self)
    next => rfl

end PatternText
