import PatternText.Proofs.Number.Rounding

/-! Words as floating point numbers. The conversion shifts digits off the end of a word one by one and
keeps of them whether the last one was a one and whether any before was. That is what has to be known of
the remainder of a division by a power of two to round its quotient, so the conversion gives the number
nearest to the word. -/

namespace PatternText

open Float.Model UnpackedFloat

/-- What is left is the quotient of a division, and the two bits compare the remainder with a half. -/
structure CutOff (em : ExtendedMantissa) (num den : Nat) : Prop where
  mantissa : em.mantissa = num / den
  roundBit : em.roundBit = true ↔ den ≤ 2 * (num % den)
  stickyBit : em.stickyBit = true ↔ 2 * (num % den) ≠ 0 ∧ 2 * (num % den) ≠ den

namespace CutOff

theorem exact (num : Nat) : CutOff (.ofMantissaAndAccuracy num .exact) num 1 where
  mantissa := (Nat.div_one num).symm
  roundBit := by
    rw [Nat.mod_one]
    exact iff_of_false Bool.false_ne_true (by decide)
  stickyBit := by
    rw [Nat.mod_one]
    exact iff_of_false Bool.false_ne_true (by decide)

variable {em : ExtendedMantissa} {num den : Nat}

theorem shiftRightOne (h : CutOff em num den) (hden : 0 < den) :
    CutOff em.shiftRightOne num (den * 2) := by
  have hmod : num % (den * 2) = num % den + den * (num / den % 2) := Nat.mod_mul
  have hlt : num % den < den := Nat.mod_lt num hden
  have hbit : num / den % 2 = 0 ∨ num / den % 2 = 1 := Nat.mod_two_eq_zero_or_one _
  constructor
  · show em.mantissa / 2 = num / (den * 2)
    rw [h.mantissa, Nat.div_div_eq_div_mul]
  · show (em.mantissa % 2 != 0) = true ↔ _
    rw [h.mantissa, bne_iff_ne, hmod]
    rcases hbit with hbit | hbit <;> rw [hbit] <;> omega
  · show (em.roundBit || em.stickyBit) = true ↔ _
    rw [Bool.or_eq_true, h.roundBit, h.stickyBit, hmod]
    rcases hbit with hbit | hbit <;> rw [hbit] <;> omega

theorem shiftRight (h : CutOff em num den) (hden : 0 < den) (k : Nat) :
    CutOff (em >>> k) num (den * 2 ^ k) := by
  induction k with
  | zero =>
    rw [Nat.pow_zero, Nat.mul_one]
    exact h
  | succ k ih =>
    rw [Nat.pow_succ, ← Nat.mul_assoc]
    exact ih.shiftRightOne (Nat.mul_pos hden (Nat.two_pow_pos k))

/-- The bits decide about rounding as the remainder does. -/
theorem roundedMantissa (h : CutOff em num den) (hden : 0 < den) :
    em.roundedMantissa = roundHalfEven num den := by
  obtain ⟨mantissa, roundBit, stickyBit⟩ := em
  obtain ⟨hmantissa, hround, hsticky⟩ := h
  dsimp only at hmantissa hround hsticky
  have hrounded : roundHalfEven num den =
      if den < 2 * (num % den) ∨ 2 * (num % den) = den ∧ mantissa % 2 = 1 then mantissa + 1
      else mantissa := by
    rw [roundHalfEven, ← hmantissa]
    simp only [Bool.or_eq_true, Bool.and_eq_true, decide_eq_true_eq, beq_iff_eq]
  rw [hrounded]
  cases roundBit with
  | false =>
    have hless : 2 * (num % den) < den := Nat.not_le.1 fun hle => Bool.false_ne_true (hround.2 hle)
    rw [if_neg (by omega)]
    cases stickyBit <;> rfl
  | true =>
    have hle : den ≤ 2 * (num % den) := hround.1 rfl
    cases stickyBit with
    | false =>
      have htie : 2 * (num % den) = den := by
        by_contra hne
        exact Bool.false_ne_true (hsticky.2 ⟨by omega, hne⟩)
      show mantissa + mantissa % 2 = _
      split <;> omega
    | true =>
      have hne := (hsticky.1 rfl).2
      rw [if_pos (.inl (by omega))]
      rfl

end CutOff

/-! ### The conversion -/

theorem targetExponent_binary64 {mantissa : Nat} {exponent : ℤ}
    (h : -1022 ≤ mantissa.log2 + exponent) :
    Format.binary64.targetExponent (totalExponent mantissa exponent) = mantissa.log2 + exponent - 52 := by
  have hmin : Format.binary64.minExponent = -1074 := rfl
  have hbits : Format.binary64.mantissaBits = 53 := rfl
  unfold Format.targetExponent totalExponent
  omega

/-- Numbers that are not too small keep 53 digits. -/
theorem shiftToTargetExponent_binary64 {mantissa : Nat} {exponent : ℤ}
    (h : -1022 ≤ mantissa.log2 + exponent) :
    shiftToTargetExponent .binary64 mantissa exponent .exact =
      (ExtendedMantissa.ofMantissaAndAccuracy mantissa .exact >>> (mantissa.log2 - 52),
        exponent + (mantissa.log2 - 52 : ℕ)) := by
  have hshift : (mantissa.log2 + exponent - 52 - exponent).toNat = mantissa.log2 - 52 := by omega
  unfold shiftToTargetExponent shiftToExponent
  dsimp only
  rw [targetExponent_binary64 h, hshift]

section Pack

variable {mantissa : Nat} {exponent : ℤ}

/-- The leading one is not stored, and counts as one more in the stored exponent. -/
theorem toNat_pack_finite (hlow : 2 ^ 52 ≤ mantissa) (hhigh : mantissa < 2 ^ 53) {k : Nat}
    (hk : exponent = k - 1074) (hlt : k ≤ 2044) (hpos : 0 < mantissa) :
    (UnpackedFloat.pack .binary64 (.finite .positive mantissa exponent hpos)).toNat =
      k * 2 ^ 52 + mantissa := by
  have hexponent : (exponent + Format.binary64.exponentBias + (52 : ℕ)).toNat = k + 1 := by
    have hbias : Format.binary64.exponentBias = 1023 := rfl
    omega
  have hdigits : mantissa.log2 + 1 = Format.binary64.mantissaBits := by
    have hlog : mantissa.log2 = 52 := (Nat.log2_eq_iff hpos.ne').2 ⟨hlow, hhigh⟩
    rw [hlog]
    rfl
  unfold UnpackedFloat.pack
  dsimp only
  rw [hexponent, if_neg (by omega), if_pos hdigits]
  unfold packComponents
  have hexponent' : (BitVec.ofNat 11 (k + 1)).toNat < 2 ^ 11 := BitVec.isLt _
  have hmantissa : (BitVec.ofNat 52 mantissa).toNat < 2 ^ 52 := BitVec.isLt _
  rw [BitVec.toNat_append, BitVec.toNat_append, ← Nat.shiftLeft_add_eq_or_of_lt hexponent',
    ← Nat.shiftLeft_add_eq_or_of_lt hmantissa, Nat.shiftLeft_eq, Nat.shiftLeft_eq, BitVec.toNat_ofNat,
    BitVec.toNat_ofNat]
  have hsign : (Sign.positive.toBitVec).toNat = 0 := rfl
  rw [hsign]
  omega

/-- A rounded mantissa that is a power of two loses its last digit, and the exponent gains one for it. -/
theorem mantissa_carry {rounded : Nat} (hlow : 2 ^ 52 ≤ rounded) (hhigh : rounded ≤ 2 ^ 53) :
    let carry := rounded.log2 - 52
    2 ^ 52 ≤ rounded / 2 ^ carry ∧ rounded / 2 ^ carry < 2 ^ 53 ∧ carry ≤ 1 ∧
      carry * 2 ^ 52 + rounded / 2 ^ carry = rounded := by
  intro carry
  by_cases hpower : rounded < 2 ^ 53
  · have hcarry : carry = 0 := by
      have hlog : rounded.log2 = 52 := (Nat.log2_eq_iff (by omega)).2 ⟨hlow, hpower⟩
      omega
    rw [hcarry, Nat.pow_zero, Nat.div_one]
    omega
  · have heq : rounded = 2 ^ 53 := by omega
    have hcarry : carry = 1 := by
      have hlog : rounded.log2 = 53 := by rw [heq, Nat.log2_two_pow]
      omega
    rw [hcarry, Nat.pow_one]
    omega

/-- All but 53 digits are cut off. -/
theorem roundHalfEven_digits (hmantissa : 2 ^ 52 ≤ mantissa) :
    2 ^ 52 ≤ roundHalfEven mantissa (2 ^ (mantissa.log2 - 52)) ∧
      roundHalfEven mantissa (2 ^ (mantissa.log2 - 52)) ≤ 2 ^ 53 := by
  obtain ⟨-, hlow, hhigh⟩ := roundHalfEven_onGrid mantissa Nat.one_pos
  rw [Nat.div_one, Nat.one_mul] at hlow hhigh
  refine ⟨hlow.elim (fun hnone => ?_) id, hhigh⟩
  have hle := div_le_roundHalfEven mantissa 1
  rw [Nat.div_one] at hle
  rw [hnone, Nat.pow_zero]
  exact hmantissa.trans hle

/-- The rounded mantissa is stored with what it carries. -/
theorem toNat_pack_roundWithAccuracy (hmantissa : 2 ^ 52 ≤ mantissa) {k : Nat}
    (hk : exponent = k - 1074) (hlt : k + (mantissa.log2 - 52) ≤ 2043) :
    (UnpackedFloat.pack .binary64
        (roundWithAccuracy .binary64 .positive mantissa exponent .exact)).toNat =
      (k + (mantissa.log2 - 52)) * 2 ^ 52 + roundHalfEven mantissa (2 ^ (mantissa.log2 - 52)) := by
  have hlog : 52 ≤ mantissa.log2 := (Nat.le_log2 (by omega)).2 hmantissa
  have hfirst := shiftToTargetExponent_binary64 (by omega : -1022 ≤ mantissa.log2 + exponent)
  obtain ⟨hlow, hhigh⟩ := roundHalfEven_digits hmantissa
  have hrounded := ((CutOff.exact mantissa).shiftRight Nat.one_pos (mantissa.log2 - 52)).roundedMantissa
    (Nat.mul_pos Nat.one_pos (Nat.two_pow_pos _))
  rw [Nat.one_mul] at hrounded
  generalize roundHalfEven mantissa (2 ^ (mantissa.log2 - 52)) = rounded at *
  generalize mantissa.log2 - 52 = shift at *
  have hlog' : 52 ≤ rounded.log2 := (Nat.le_log2 (by omega)).2 hlow
  have hsecond := shiftToTargetExponent_binary64
    (by omega : -1022 ≤ rounded.log2 + (exponent + shift))
  have hfinal := ((CutOff.exact rounded).shiftRight Nat.one_pos (rounded.log2 - 52)).mantissa
  rw [Nat.one_mul] at hfinal
  obtain ⟨hlow', hhigh', hone, hsum⟩ := mantissa_carry hlow hhigh
  generalize rounded.log2 - 52 = carry at *
  unfold roundWithAccuracy
  rw [hfirst]
  dsimp only
  rw [hrounded, hsecond]
  dsimp only
  rw [dif_neg (by omega), toNat_pack_finite (by rwa [hfinal]) (by rwa [hfinal])
    (by omega : exponent + shift + carry = (k + shift + carry : ℕ) - 1074) (by omega), hfinal,
    Nat.add_mul _ carry, Nat.add_assoc, hsum]

end Pack

/-- Digits are appended to a small number before it is rounded. -/
theorem ofNat_binary64 {n : Nat} (hn : 0 < n) : UnpackedFloat.ofNat .binary64 n =
    roundWithAccuracy .binary64 .positive (n * 2 ^ (52 - n.log2)) (-(52 - n.log2 : ℕ)) .exact := by
  have htarget := targetExponent_binary64 (by omega : -1022 ≤ n.log2 + (0 : ℤ))
  have hshift : (0 - (n.log2 + (0 : ℤ) - 52)).toNat = 52 - n.log2 := by omega
  have hcompare : compare (n : ℤ) 0 = .gt := by
    rw [compare_gt_iff_gt]
    exact_mod_cast hn
  unfold UnpackedFloat.ofNat UnpackedFloat.ofInt UnpackedFloat.normalize
  rw [hcompare]
  unfold UnpackedFloat.round decreaseExponent
  dsimp only
  rw [Int.toNat_natCast, htarget, hshift, Nat.shiftLeft_eq, Int.zero_sub]

/-- A word is rounded to the nearest number that 53 digits can express. -/
theorem toNat_toBits_toFloat (n : UInt64) :
    n.toFloat.toBits.toNat = roundUnits (n.toNat * unitsPerOne) 1 := by
  have hpack : n.toFloat.toBits.toNat =
      (UnpackedFloat.pack .binary64 (UnpackedFloat.ofNat .binary64 n.toNat)).toNat := rfl
  have hword : n.toNat.log2 < 64 := log2_lt_of_lt_pow (by decide) n.toNat_lt
  rw [hpack]
  generalize n.toNat = n at hword ⊢
  obtain rfl | hpos := Nat.eq_zero_or_pos n
  · rw [Nat.zero_mul]
    rfl
  · -- so many digits are appended, and so many are cut off
    obtain ⟨appended, happended⟩ : ∃ k, k = 52 - n.log2 := ⟨_, rfl⟩
    obtain ⟨cut, hcut⟩ : ∃ k, k = n.log2 - 52 := ⟨_, rfl⟩
    have hunits := unitsPerOne_eq_pow (by omega : appended + (1074 - appended) = 1074)
    have hlog : (n * 2 ^ appended).log2 = 52 + cut := by
      rw [log2_mul_two_pow hpos]
      omega
    have hmantissa : 2 ^ 52 ≤ n * 2 ^ appended :=
      (Nat.le_log2 (Nat.mul_pos hpos (Nat.two_pow_pos _)).ne').1 (by omega)
    have hstored := toNat_pack_roundWithAccuracy hmantissa
      (by omega : (-(appended : ℕ) : ℤ) = (1074 - appended : ℕ) - 1074) (by omega)
    have hrounded : roundHalfEven (n * unitsPerOne) (2 ^ (1074 - appended + cut)) =
        roundHalfEven (n * 2 ^ appended) (2 ^ cut) := by
      rw [hunits, Nat.pow_add 2 appended, ← Nat.mul_assoc, Nat.add_comm, Nat.pow_add 2 cut]
      exact roundHalfEven_mul _ _ (Nat.two_pow_pos _)
    have hgrid : (n * unitsPerOne).log2 - 52 = 1074 - appended + cut := by
      rw [hunits, log2_mul_two_pow hpos]
      omega
    obtain ⟨-, hhigh⟩ := roundHalfEven_digits hmantissa
    rw [hlog, Nat.add_sub_cancel_left] at hstored hhigh
    rw [ofNat_binary64 hpos, ← happended, hstored]
    unfold roundUnits
    simp only [Nat.pow_eq]
    rw [Nat.div_one, hgrid, Nat.one_mul, hrounded, Nat.min_eq_left (by omega)]

/-- The conversion of a word gives the number nearest to it. -/
theorem nearestEven_toFloat (n : UInt64) : NearestEven n.toFloat n.toNat := by
  have hunits : (unitsPerOne : ℚ) ≠ 0 := Nat.cast_ne_zero.2 unitsPerOne_pos.ne'
  have hpow (k : Nat) (hk : 64 ≤ k) : n.toNat < 2 ^ k :=
    n.toNat_lt.trans_le (Nat.pow_le_pow_right Nat.two_pos hk)
  have hlt : n.toNat * unitsPerOne / 1 < 2 ^ 1023 * unitsPerOne := by
    rw [Nat.div_one]
    exact Nat.mul_lt_mul_of_pos_right (hpow 1023 (by decide)) unitsPerOne_pos
  have hnearest := nearestEven_of_toBits _ Nat.one_pos hlt (toNat_toBits_toFloat n)
  rwa [Nat.cast_mul, Nat.cast_one, div_one, mul_div_cancel_right₀ _ hunits] at hnearest

end PatternText
