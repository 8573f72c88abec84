import PatternText.Proofs.Number.Value

/-! Rounding to the nearest floating point number. The multiples of one unit that a number of 53 binary
digits can express lie on a grid, which gets coarser by a power of two wherever the numbers pass one. The
quotient is rounded on the grid of its own order of magnitude; what finer grids offer lies below the least
number of that order, which the grid has too. -/

namespace PatternText

/-! ### Whole numbers nearest to a quotient -/

section HalfEven

variable (num : Nat) {den : Nat} (hden : 0 < den)
include hden

/-- The rounded quotient is off by half of one at most, and if by half then it is even. -/
theorem roundHalfEven_off : 2 * |(roundHalfEven num den * den : ℤ) - num| ≤ den ∧
    (2 * |(roundHalfEven num den * den : ℤ) - num| = den → roundHalfEven num den % 2 = 0) := by
  have hdiv : (num : ℤ) = (num / den : ℕ) * den + (num % den : ℕ) := by
    exact_mod_cast (Nat.div_add_mod' num den).symm
  have hlt : num % den < den := Nat.mod_lt num hden
  unfold roundHalfEven
  generalize num / den = q at hdiv
  generalize num % den = r at hdiv hlt
  dsimp only
  split
  next hup =>
    -- the remainder is at least a half, so what is missing is at most that
    have hoff : (((q + 1 : ℕ) : ℤ) * den - num) = den - r := by
      rw [hdiv]
      push_cast
      ring
    rw [hoff, abs_of_nonneg (by omega)]
    simp only [Bool.or_eq_true, Bool.and_eq_true, decide_eq_true_eq, beq_iff_eq] at hup
    omega
  next hdown =>
    have hoff : ((q : ℤ) * den - num) = -r := by
      rw [hdiv]
      ring
    rw [hoff, abs_neg, abs_of_nonneg (by omega)]
    simp only [Bool.or_eq_true, Bool.and_eq_true, decide_eq_true_eq, beq_iff_eq] at hdown
    omega

/-- No whole number is nearer, and if another one is as near then the even one was taken. -/
theorem roundHalfEven_nearest (m : ℤ) :
    |(roundHalfEven num den * den : ℤ) - num| ≤ |m * den - num| ∧
      (|m * den - num| = |(roundHalfEven num den * den : ℤ) - num| → m ≠ roundHalfEven num den →
        roundHalfEven num den % 2 = 0) := by
  obtain ⟨hoff, heven⟩ := roundHalfEven_off num hden
  generalize roundHalfEven num den = rounded at hoff heven ⊢
  by_cases heq : m = rounded
  · subst heq
    exact ⟨le_refl _, fun _ hne => absurd rfl hne⟩
  · have hstep : (den : ℤ) ≤ |m * den - rounded * den| := by
      rw [← sub_mul, abs_mul, Nat.abs_cast]
      exact le_mul_of_one_le_left (Int.natCast_nonneg _) (Int.one_le_abs (sub_ne_zero.2 heq))
    have htriangle : |m * den - rounded * den| ≤ |m * den - num| + |(rounded * den : ℤ) - num| := by
      rw [abs_sub_comm (rounded * den : ℤ) num]
      exact abs_sub_le _ _ _
    exact ⟨by omega, fun htie _ => heven (by omega)⟩

end HalfEven

/-- Rounding gives the whole number at most a half away, the even one of two. -/
theorem roundHalfEven_eq_iff {num den : Nat} (hden : 0 < den) (m : Nat) :
    roundHalfEven num den = m ↔ 2 * (m * den) ≤ 2 * num + den ∧ 2 * num ≤ 2 * (m * den) + den ∧
      (2 * (m * den) = 2 * num + den ∨ 2 * num = 2 * (m * den) + den → m % 2 = 0) := by
  obtain ⟨hoff, heven⟩ := roundHalfEven_off num hden
  generalize roundHalfEven num den = rounded at hoff heven ⊢
  rw [← Nat.cast_mul] at hoff heven
  have habs := abs_cases (((rounded * den : ℕ) : ℤ) - num)
  constructor
  · rintro rfl
    omega
  · intro ⟨hlow, hhigh, htie⟩
    by_contra hne
    -- two whole numbers apart are both a half away, and one of them is odd
    rcases Nat.lt_or_gt_of_ne hne with hlt | hlt
    · have hstep : (rounded + 1) * den ≤ m * den := Nat.mul_le_mul_right den hlt
      have hsame : m ≤ rounded + 1 := by
        refine Nat.le_of_mul_le_mul_right ?_ hden
        rw [Nat.add_mul, Nat.one_mul] at hstep ⊢
        omega
      rw [Nat.add_mul, Nat.one_mul] at hstep
      omega
    · have hstep : (m + 1) * den ≤ rounded * den := Nat.mul_le_mul_right den hlt
      have hsame : rounded ≤ m + 1 := by
        refine Nat.le_of_mul_le_mul_right ?_ hden
        rw [Nat.add_mul, Nat.one_mul] at hstep ⊢
        omega
      rw [Nat.add_mul, Nat.one_mul] at hstep
      omega

/-- A common factor does not matter. -/
theorem roundHalfEven_mul (num den : Nat) {c : Nat} (hc : 0 < c) :
    roundHalfEven (num * c) (den * c) = roundHalfEven num den := by
  have hlt : (den * c < 2 * (num * c % (den * c))) = (den < 2 * (num % den)) := by
    rw [Nat.mul_mod_mul_right, ← Nat.mul_assoc, Nat.mul_lt_mul_right hc]
  have hbeq : (2 * (num * c % (den * c)) == den * c) = (2 * (num % den) == den) := by
    rw [Nat.mul_mod_mul_right, ← Nat.mul_assoc, Bool.eq_iff_iff, beq_iff_eq, beq_iff_eq]
    exact Nat.mul_left_inj hc.ne'
  unfold roundHalfEven
  simp only [hlt, hbeq, Nat.mul_div_mul_right num den hc]

theorem div_le_roundHalfEven (num den : Nat) : num / den ≤ roundHalfEven num den := by
  unfold roundHalfEven
  dsimp only
  split <;> omega

theorem roundHalfEven_le (num den : Nat) : roundHalfEven num den ≤ num / den + 1 := by
  unfold roundHalfEven
  dsimp only
  split <;> omega

/-! ### The grid of the numbers -/

theorem unitsPerOne_eq_pow {k : Nat} (hk : k = 1074) : unitsPerOne = 2 ^ k := by
  unfold unitsPerOne
  rw [← hk]
  exact Nat.pow_eq

theorem pow_mul_unitsPerOne (k : Nat) : 2 ^ k * unitsPerOne = 2 ^ (k + 1074) := by
  rw [unitsPerOne_eq_pow rfl, ← Nat.pow_add]

theorem log2_lt_of_lt_pow {n k : Nat} (hk : 0 < k) (h : n < 2 ^ k) : n.log2 < k := by
  by_cases hn : n = 0
  · rw [hn, Nat.log2_zero]
    exact hk
  · exact (Nat.log2_lt hn).2 h

theorem log2_mul_two_pow {n : Nat} (hn : 0 < n) (k : Nat) : (n * 2 ^ k).log2 = n.log2 + k := by
  rw [Nat.log2_eq_iff (Nat.mul_pos hn (Nat.two_pow_pos k)).ne', Nat.pow_add, Nat.add_right_comm, Nat.pow_add]
  exact ⟨Nat.mul_le_mul_right _ (Nat.log2_self_le hn.ne'),
    Nat.mul_lt_mul_of_pos_right Nat.lt_log2_self (Nat.two_pow_pos k)⟩

/-- The order of magnitude of a quotient is told by two powers of two. -/
theorem log2_div_sub_eq {num den k : Nat} (hden : 0 < den) (hlow : k = 0 ∨ 2 ^ (52 + k) * den ≤ num)
    (hhigh : num < 2 ^ (53 + k) * den) : (num / den).log2 - 52 = k := by
  have hbelow : num / den < 2 ^ (53 + k) := (Nat.div_lt_iff_lt_mul hden).2 hhigh
  have hlog := log2_lt_of_lt_pow (by omega) hbelow
  rcases hlow with rfl | hlow
  · omega
  · have habove : 2 ^ (52 + k) ≤ num / den := (Nat.le_div_iff_mul_le hden).2 hlow
    have hne : num / den ≠ 0 := ((Nat.two_pow_pos _).trans_le habove).ne'
    have := (Nat.le_log2 hne).2 habove
    omega

namespace Exact

theorem value_eq_signedUnits (e : Exact) : e.value = e.signedUnits / unitsPerOne := by
  rw [value, signedUnits]
  split
  · rw [Int.cast_neg, Int.cast_natCast, neg_div]
  · rw [Int.cast_natCast]

theorem natAbs_signedUnits (e : Exact) : e.signedUnits.natAbs = e.units := by
  rw [signedUnits]
  split
  · rw [Int.natAbs_neg, Int.natAbs_natCast]
  · rw [Int.natAbs_natCast]

/-- A number lies on the grid of `2 ^ k` units or below the numbers for which this is the finest grid. -/
theorem pow_dvd_or_lt {x : Float} {e : Exact} (h : ofFloat? x = some e) (k : Nat) :
    2 ^ k ∣ e.units ∨ e.units < 2 ^ (52 + k) := by
  have hfraction : x.toBits.toNat % Nat.pow 2 52 < 2 ^ 52 := Nat.mod_lt _ (Nat.two_pow_pos 52)
  unfold ofFloat? at h
  dsimp only at h
  generalize x.toBits.toNat / Nat.pow 2 52 % 2048 = exponent at h
  generalize x.toBits.toNat % Nat.pow 2 52 = fraction at h hfraction
  split at h
  · cases h
  · split at h
    · cases h
      exact .inr (hfraction.trans_le (Nat.pow_le_pow_right Nat.two_pos (Nat.le_add_right 52 k)))
    · cases h
      by_cases hle : k ≤ exponent - 1
      · exact .inl ((Nat.pow_dvd_pow 2 hle).mul_left _)
      · right
        calc
          (2 ^ 52 + fraction) * 2 ^ (exponent - 1)
            < 2 ^ 53 * 2 ^ (exponent - 1) :=
              Nat.mul_lt_mul_of_pos_right (by omega) (Nat.two_pow_pos _)
          _ = 2 ^ (53 + (exponent - 1)) := (Nat.pow_add ..).symm
          _ ≤ 2 ^ (52 + k) := Nat.pow_le_pow_right Nat.two_pos (by omega)

/-- A multiple of `2 ^ k` units has its representation, also if it is the next power of two. -/
theorem ofFloat?_of_toBits {x : Float} {k rounded : Nat}
    (hbits : x.toBits.toNat = k * 2 ^ 52 + rounded) (hlow : k = 0 ∨ 2 ^ 52 ≤ rounded)
    (hhigh : rounded ≤ 2 ^ 53) (hk : k ≤ 2044) : ofFloat? x = some ⟨false, rounded * 2 ^ k⟩ := by
  unfold ofFloat?
  simp only [Nat.pow_eq]
  have hsign : ¬2 ^ 63 ≤ x.toBits.toNat := by omega
  rw [decide_eq_false hsign]
  by_cases hsmall : rounded < 2 ^ 52
  · obtain rfl : k = 0 := by omega
    have hexponent : x.toBits.toNat / 2 ^ 52 % 2048 = 0 := by omega
    have hfraction : x.toBits.toNat % 2 ^ 52 = rounded := by omega
    rw [hexponent, hfraction, if_neg (by decide), if_pos rfl, Nat.pow_zero, Nat.mul_one]
  · obtain ⟨carry, hcarry, hexponent, hfraction⟩ : ∃ carry ≤ 1,
        x.toBits.toNat / 2 ^ 52 % 2048 = k + 1 + carry ∧
        2 ^ 52 + x.toBits.toNat % 2 ^ 52 + carry * 2 ^ 52 = rounded := by
      refine ⟨(rounded - 2 ^ 52) / 2 ^ 52, ?_, ?_, ?_⟩ <;> omega
    have hunits : (2 ^ 52 + x.toBits.toNat % 2 ^ 52) * 2 ^ (k + 1 + carry - 1) = rounded * 2 ^ k := by
      obtain rfl | rfl : carry = 0 ∨ carry = 1 := by omega
      · rw [Nat.add_zero, Nat.add_sub_cancel, ← hfraction, Nat.zero_mul, Nat.add_zero]
      · have hrounded : 2 ^ 52 + x.toBits.toNat % 2 ^ 52 = 2 ^ 52 ∧ rounded = 2 ^ 52 * 2 := by omega
        rw [hrounded.1, hrounded.2, Nat.add_sub_cancel, pow_succ' 2 k, Nat.mul_assoc]
    rw [hexponent, if_neg (by omega), if_neg (by omega), hunits]

end Exact

/-! ### The nearest number -/

/-- The number is finite, no finite number is nearer to `q`, and if one of another value is as near, the
last binary digit of `x` is zero. -/
def NearestEven (x : Float) (q : ℚ) : Prop :=
  ∃ a, floatValue? x = some a ∧ ∀ (y : Float) (b : ℚ), floatValue? y = some b →
    |a - q| ≤ |b - q| ∧ (|b - q| = |a - q| → b ≠ a → x.toBits.toNat % 2 = 0)

/-- Of the numbers above zero only fractions can be next to zero. -/
theorem NearestEven.beq_zero {x : Float} {n : Nat} (h : NearestEven x n) (hn : 0 < n) :
    (x == 0) = false := by
  obtain ⟨a, ha, hnearest⟩ := h
  have hone : floatValue? 1 = some 1 := by decide +kernel
  have hpos : (1 : ℚ) ≤ n := Nat.one_le_cast.2 hn
  by_contra hzero
  have ha0 : a = 0 := (beq_zero_iff ha).1 (Bool.not_eq_false _ ▸ hzero)
  have hcloser := (hnearest 1 1 hone).1
  rw [ha0, zero_sub, abs_neg, abs_of_nonneg (by linarith), abs_of_nonpos (by linarith)] at hcloser
  linarith

section RoundUnits

variable (num : Nat) {den : Nat} (hden : 0 < den)
include hden

/-- The quotient is rounded on the grid of its order of magnitude: below, on the finest of all grids or
among the numbers with all 53 digits; above, at most up to the next power of two. -/
theorem roundHalfEven_onGrid : let k := (num / den).log2 - 52
    (k = 0 ∨ 2 ^ (52 + k) * den ≤ num) ∧
    (k = 0 ∨ 2 ^ 52 ≤ roundHalfEven num (den * 2 ^ k)) ∧ roundHalfEven num (den * 2 ^ k) ≤ 2 ^ 53 := by
  intro k
  have hupper : num / den < 2 ^ (53 + k) :=
    Nat.lt_log2_self.trans_le (Nat.pow_le_pow_right Nat.two_pos (by omega))
  have hlower : k = 0 ∨ 2 ^ (52 + k) ≤ num / den := by
    by_cases hk : k = 0
    · exact .inl hk
    · have hne : num / den ≠ 0 := by
        intro hzero
        have hlog : k = (num / den).log2 - 52 := rfl
        rw [hzero] at hlog
        exact hk hlog
      have hlog : 52 + k = (num / den).log2 := by omega
      rw [hlog]
      exact .inr (Nat.log2_self_le hne)
  have hdiv : num / (den * 2 ^ k) = num / den / 2 ^ k := (Nat.div_div_eq_div_mul ..).symm
  refine ⟨hlower.imp_right (Nat.le_div_iff_mul_le hden).1, hlower.imp_right fun h => ?_, ?_⟩
  · refine (Nat.le_trans ?_ (div_le_roundHalfEven num (den * 2 ^ k)))
    rw [hdiv, Nat.le_div_iff_mul_le (Nat.two_pow_pos k), ← Nat.pow_add]
    exact h
  · refine (roundHalfEven_le num (den * 2 ^ k)).trans (Nat.succ_le_of_lt ?_)
    rw [hdiv, Nat.div_lt_iff_lt_mul (Nat.two_pow_pos k), ← Nat.pow_add]
    exact hupper

/-- On its grid the rounded quotient is the nearest of all numbers. -/
theorem roundHalfEven_nearest_units {y : Float} {e : Exact} (hy : Exact.ofFloat? y = some e) :
    let k := (num / den).log2 - 52
    let rounded := roundHalfEven num (den * 2 ^ k)
    |((rounded * 2 ^ k : ℕ) : ℤ) * den - num| ≤ |e.signedUnits * den - num| ∧
      (|e.signedUnits * den - num| = |((rounded * 2 ^ k : ℕ) : ℤ) * den - num| →
        e.signedUnits ≠ (rounded * 2 ^ k : ℕ) → rounded % 2 = 0) := by
  intro k rounded
  obtain ⟨hgrid, -, -⟩ := roundHalfEven_onGrid num hden
  have hnearest := roundHalfEven_nearest num (Nat.mul_pos hden (Nat.two_pow_pos k))
  have hmul (m : ℤ) : m * (den * 2 ^ k : ℕ) = m * 2 ^ k * den := by
    push_cast
    ring
  have hrounded : ((rounded * 2 ^ k : ℕ) : ℤ) * den = (rounded : ℤ) * (den * 2 ^ k : ℕ) := by
    rw [hmul]
    push_cast
    rfl
  rw [hrounded]
  by_cases hdvd : 2 ^ k ∣ e.units
  · obtain ⟨m, hm⟩ : (2 ^ k : ℤ) ∣ e.signedUnits := by
      rw [← Int.natAbs_dvd_natAbs, e.natAbs_signedUnits, Int.natAbs_pow]
      exact hdvd
    have hunits : e.signedUnits * den = m * (den * 2 ^ k : ℕ) := by rw [hmul, hm, mul_comm (2 ^ k) m]
    rw [hunits]
    refine ⟨(hnearest m).1, fun htie hne => (hnearest m).2 htie ?_⟩
    rintro rfl
    exact hne (by rw [hm, Nat.cast_mul, Nat.cast_pow, mul_comm]; rfl)
  · have hlt : e.units < 2 ^ (52 + k) := (Exact.pow_dvd_or_lt hy k).resolve_left hdvd
    have hk : k ≠ 0 := by
      intro hzero
      rw [hzero] at hdvd
      exact hdvd (Nat.one_dvd _)
    -- the least number of this order lies between
    have hbelow : e.signedUnits * den < 2 ^ (52 + k) * den := by
      have hle : e.signedUnits ≤ (e.units : ℤ) := e.natAbs_signedUnits ▸ Int.le_natAbs
      exact mul_lt_mul_of_pos_right (hle.trans_lt (by exact_mod_cast hlt)) (by exact_mod_cast hden)
    have habove : (2 ^ (52 + k) * den : ℤ) ≤ num := by exact_mod_cast hgrid.resolve_left hk
    have hpower : |(rounded : ℤ) * (den * 2 ^ k : ℕ) - num| ≤
        |(2 ^ 52 : ℤ) * (den * 2 ^ k : ℕ) - num| :=
      (hnearest (2 ^ 52)).1
    rw [hmul (2 ^ 52), ← pow_add, abs_of_nonpos (by omega : (2 ^ (52 + k) * den : ℤ) - num ≤ 0)] at hpower
    rw [abs_of_nonpos (by omega : e.signedUnits * den - num ≤ 0)]
    exact ⟨by omega, fun htie _ => absurd htie (by omega)⟩

/-- The distance in units, with the denominator multiplied out. -/
theorem abs_div_sub_div (units : ℤ) : |(units : ℚ) / unitsPerOne - num / den / unitsPerOne| =
    (|units * den - num| : ℤ) / (den * unitsPerOne) := by
  have hden' : (0 : ℚ) < den := Nat.cast_pos.2 hden
  have hunits : (0 : ℚ) < unitsPerOne := Nat.cast_pos.2 unitsPerOne_pos
  have hdiff : (units : ℚ) / unitsPerOne - num / den / unitsPerOne =
      (units * den - num) / (den * unitsPerOne) := by
    field_simp
  rw [hdiff, abs_div, abs_of_pos (mul_pos hden' hunits)]
  push_cast
  rfl

/-- A number with the rounded representation is the nearest one, as long as that is finite. -/
theorem nearestEven_of_toBits {x : Float} (hlt : num / den < 2 ^ 1023 * unitsPerOne)
    (hbits : x.toBits.toNat = roundUnits num den) : NearestEven x (num / den / unitsPerOne) := by
  obtain ⟨-, hlow, hhigh⟩ := roundHalfEven_onGrid num hden
  have hnearest {y : Float} {e : Exact} (hy : Exact.ofFloat? y = some e) :=
    roundHalfEven_nearest_units num hden hy
  have hk : (num / den).log2 - 52 ≤ 2044 := by
    rw [pow_mul_unitsPerOne] at hlt
    have hlog := log2_lt_of_lt_pow (by decide) hlt
    omega
  unfold roundUnits at hbits
  dsimp only at hbits hnearest
  generalize (num / den).log2 - 52 = k at *
  simp only [Nat.pow_eq] at hbits
  generalize roundHalfEven num (den * 2 ^ k) = rounded at *
  rw [Nat.min_eq_left (by omega)] at hbits
  have hx := Exact.ofFloat?_of_toBits hbits hlow hhigh hk
  have hparity : x.toBits.toNat % 2 = rounded % 2 := by omega
  refine ⟨((rounded * 2 ^ k : ℕ) : ℤ) / unitsPerOne, ?_, fun y b hy => ?_⟩
  · rw [floatValue?_eq, hx]
    rfl
  · rw [floatValue?_eq] at hy
    obtain ⟨e, he, rfl⟩ := Option.map_eq_some_iff.1 hy
    obtain ⟨hle, htie⟩ := hnearest he
    have hpos : (0 : ℚ) < den * unitsPerOne :=
      mul_pos (Nat.cast_pos.2 hden) (Nat.cast_pos.2 unitsPerOne_pos)
    rw [e.value_eq_signedUnits, abs_div_sub_div num hden, abs_div_sub_div num hden, hparity]
    refine ⟨(div_le_div_iff_of_pos_right hpos).2 (by exact_mod_cast hle), fun h hne => ?_⟩
    refine htie (by exact_mod_cast (div_left_inj' hpos.ne').1 h) fun hunits => hne ?_
    rw [hunits]

end RoundUnits

end PatternText
