import PatternText.Proofs.Number.FixedPoint

/-! Whole numbers in their shortest form. A whole number lies on the grid of the ones, so the search for
the coarsest grid never goes below it, and the form is a whole number too. It lies among the values that
round to the number, which are at most one part in `2 ^ 53` away from it; up to `2 ^ 53` only the number
itself is left. -/

namespace PatternText

/-- `m` is at most one part in `2 ^ 53` of `n` away from `n`. -/
structure Near (n m : Nat) : Prop where
  below : 2 ^ 53 * n ≤ 2 ^ 53 * m + n
  above : 2 ^ 53 * m ≤ 2 ^ 53 * n + n

namespace Near

variable {n m : Nat}

theorem refl (n : Nat) : Near n n :=
  ⟨Nat.le_add_right _ _, Nat.le_add_right _ _⟩

theorem pos (h : Near n m) (hn : 0 < n) : 0 < m := by
  have := h.below
  omega

theorem of_mul {unit : Nat} (hunit : 0 < unit) (h : Near (n * unit) (m * unit)) : Near n m := by
  constructor
  · exact Nat.le_of_mul_le_mul_right (by linarith [h.below]) hunit
  · exact Nat.le_of_mul_le_mul_right (by linarith [h.above]) hunit

/-- Up to `2 ^ 53` a multiple of ten in this distance is the number itself. -/
theorem eq_of_ten_dvd (h : Near n m) (hn : n ≤ 2 ^ 53) (hten : 10 ∣ m) : m = n := by
  have hbelow := h.below
  have habove := h.above
  have hcases : m = n ∨ m + 1 = n ∨ m = n + 1 := by omega
  omega

theorem abs_sub_le (h : Near n m) : |(m : ℚ) - n| ≤ n / 2 ^ 53 := by
  have hbelow : (2 ^ 53 * n : ℚ) ≤ 2 ^ 53 * m + n := by exact_mod_cast h.below
  have habove : (2 ^ 53 * m : ℚ) ≤ 2 ^ 53 * n + n := by exact_mod_cast h.above
  rw [abs_le]
  constructor <;> linarith

end Near

/-! ### The values that round to a number -/

namespace RoundingInterval

/-- The values in the interval, in quarters of a unit. -/
def toSet (i : RoundingInterval) : Set ℚ :=
  if i.closed then Set.Icc (i.low : ℚ) i.high else Set.Ioo (i.low : ℚ) i.high

theorem ordConnected_toSet (i : RoundingInterval) : i.toSet.OrdConnected := by
  unfold toSet
  split
  · exact Set.ordConnected_Icc
  · exact Set.ordConnected_Ioo

theorem contains_iff_mem (i : RoundingInterval) (num : Nat) {den : Nat} (hden : 0 < den) :
    i.contains num den = true ↔ (num / den : ℚ) ∈ i.toSet := by
  have hden' : (0 : ℚ) < den := Nat.cast_pos.2 hden
  unfold contains toSet
  split
  · rw [Bool.and_eq_true, decide_eq_true_eq, decide_eq_true_eq, Set.mem_Icc, le_div_iff₀ hden',
      div_le_iff₀ hden']
    norm_cast
  · rw [Bool.and_eq_true, decide_eq_true_eq, decide_eq_true_eq, Set.mem_Ioo, lt_div_iff₀ hden',
      div_lt_iff₀ hden']
    norm_cast

/-- Below a number the interval reaches no further than half a step of its last binary digit. -/
theorem le_low_add (units : Nat) :
    4 * units ≤ (ofUnits units).low + 2 * 2 ^ (units.log2 - 52) := by
  unfold ofUnits
  simp only [Nat.pow_eq]
  split <;> omega

section Interval

variable {units : Nat} (hunits : 2 ^ 52 ≤ units)
include hunits

/-- The last binary digit of a number stands for at most `2 ^ (-52)` of it. -/
theorem pow_log2_sub_le : 2 ^ (units.log2 - 52) * 2 ^ 52 ≤ units := by
  have hne : units ≠ 0 := by omega
  have hlog : 52 ≤ units.log2 := (Nat.le_log2 hne).2 hunits
  rw [← Nat.pow_add, Nat.sub_add_cancel hlog]
  exact Nat.log2_self_le hne

theorem low_lt : (ofUnits units).low < 4 * units := by
  have hpos : 0 < 2 ^ (units.log2 - 52) := Nat.two_pow_pos _
  unfold ofUnits
  simp only [Nat.pow_eq]
  split <;> omega

/-- A number lies among the values that round to it. -/
theorem contains_self : (ofUnits units).contains (4 * units) 1 = true := by
  have hlow := low_lt hunits
  have hhigh : 4 * units < (ofUnits units).high :=
    Nat.lt_add_of_pos_right (Nat.mul_pos Nat.two_pos (Nat.two_pow_pos _))
  unfold contains
  split <;> simp <;> omega

/-- What rounds to a number is at most one part in `2 ^ 53` away from it. -/
theorem near_of_contains {point : Nat}
    (h : (ofUnits units).contains (4 * point) 1 = true) : Near units point := by
  have hstep := pow_log2_sub_le hunits
  have hlow := le_low_add units
  have hhigh : (ofUnits units).high = 4 * units + 2 * 2 ^ (units.log2 - 52) := rfl
  have hbetween : (ofUnits units).low ≤ 4 * point ∧
      4 * point ≤ (ofUnits units).high := by
    unfold contains at h
    split at h <;> simp at h <;> omega
  constructor <;> omega

end Interval

end RoundingInterval

namespace Decimal

/-! ### Decimals in the interval -/

/-- The value of a decimal in quarters of a unit. -/
def quarters (d : Decimal) : ℚ := 4 * (d.digits * 10 ^ d.exponent * unitsPerOne)

theorem gridStep_pos (exponent : Int) : 0 < (gridStep exponent).2 := by
  unfold gridStep
  split
  · exact Nat.one_pos
  · exact Nat.pow_pos (by decide)

theorem gridStep_div (exponent : Int) :
    ((gridStep exponent).1 : ℚ) / (gridStep exponent).2 = 10 ^ exponent * unitsPerOne := by
  unfold gridStep
  split
  next h =>
    obtain ⟨e, rfl⟩ := Int.eq_ofNat_of_zero_le h
    rw [Int.toNat_natCast, Nat.pow_eq, zpow_natCast]
    push_cast
    exact div_one _
  next h =>
    obtain ⟨e, he⟩ := Int.eq_ofNat_of_zero_le (show 0 ≤ -exponent by omega)
    obtain rfl : exponent = -(e : Int) := by omega
    rw [Int.neg_neg, Int.toNat_natCast, Nat.pow_eq, zpow_neg, zpow_natCast, ← div_eq_inv_mul]
    push_cast
    rfl

theorem quarters_eq_div (digits : Nat) (exponent : Int) : quarters ⟨digits, exponent⟩ =
    (4 * (digits * (gridStep exponent).1) : ℕ) / (gridStep exponent).2 := by
  rw [quarters, mul_assoc (digits : ℚ), ← gridStep_div exponent]
  push_cast
  rw [mul_div_assoc, mul_div_assoc]

theorem contains_iff_quarters_mem (i : RoundingInterval) (digits : Nat) (exponent : Int) :
    i.contains (4 * (digits * (gridStep exponent).1)) (gridStep exponent).2 = true ↔
      quarters ⟨digits, exponent⟩ ∈ i.toSet := by
  rw [i.contains_iff_mem _ (gridStep_pos exponent), quarters_eq_div]

theorem quarters_le {digits digits' : Nat} {exponent exponent' : Int} (h : digits ≤ digits')
    (hexponent : exponent ≤ exponent') : quarters ⟨digits, exponent⟩ ≤ quarters ⟨digits', exponent'⟩ := by
  have hpow : (10 : ℚ) ^ exponent ≤ 10 ^ exponent' := zpow_le_zpow_right₀ (by norm_num) hexponent
  have hprod : (digits : ℚ) * 10 ^ exponent ≤ digits' * 10 ^ exponent' :=
    mul_le_mul (Nat.cast_le.2 h) hpow (zpow_nonneg (by norm_num) _) (Nat.cast_nonneg _)
  exact mul_le_mul_of_nonneg_left (mul_le_mul_of_nonneg_right hprod (Nat.cast_nonneg _)) (by norm_num)

/-- Zeros at the end of the digits count as a higher power of ten. -/
theorem quarters_mul_pow (digits places : Nat) (exponent : Int) :
    quarters ⟨digits * 10 ^ places, exponent⟩ = quarters ⟨digits, exponent + places⟩ := by
  unfold quarters
  rw [zpow_add₀ (by norm_num), zpow_natCast]
  push_cast
  ring

theorem gridStep_fst_pos (exponent : Int) : 0 < (gridStep exponent).1 := by
  unfold gridStep
  split <;> dsimp only
  · exact Nat.mul_pos (Nat.pow_pos (by decide)) unitsPerOne_pos
  · exact unitsPerOne_pos

/-- A grid on which the search finds no point has none: the interval would hold one of the two points next
to the number as well. -/
theorem quarters_notMem_of_onGrid?_eq_none {units : Nat} {exponent : Int} (hunits : 2 ^ 52 ≤ units)
    (h : onGrid? units exponent = none) (digits : Nat) :
    quarters ⟨digits, exponent⟩ ∉ (RoundingInterval.ofUnits units).toSet := by
  intro hmem
  have hself : (4 * units : ℚ) ∈ (RoundingInterval.ofUnits units).toSet := by
    have hcontains := RoundingInterval.contains_self hunits
    rw [RoundingInterval.contains_iff_mem _ _ Nat.one_pos] at hcontains
    simpa using hcontains
  have hden : (0 : ℚ) < (gridStep exponent).2 := Nat.cast_pos.2 (gridStep_pos exponent)
  obtain ⟨below, hbelow⟩ : ∃ n, n = units * (gridStep exponent).2 / (gridStep exponent).1 := ⟨_, rfl⟩
  have hneither : quarters ⟨below, exponent⟩ ∉ (RoundingInterval.ofUnits units).toSet ∧
      quarters ⟨below + 1, exponent⟩ ∉ (RoundingInterval.ofUnits units).toSet := by
    rw [← contains_iff_quarters_mem, ← contains_iff_quarters_mem, ← Nat.mul_assoc, ← Nat.mul_assoc, hbelow]
    unfold onGrid? at h
    dsimp only at h
    split at h
    next => cases h
    next => cases h
    next => cases h
    next hfalse hfalse' => exact ⟨Bool.eq_false_iff.1 hfalse, Bool.eq_false_iff.1 hfalse'⟩
  have hle : quarters ⟨below, exponent⟩ ≤ 4 * units := by
    rw [quarters_eq_div, div_le_iff₀ hden]
    have hmul : below * (gridStep exponent).1 ≤ units * (gridStep exponent).2 :=
      hbelow ▸ Nat.div_mul_le_self _ _
    norm_cast
    rw [Nat.mul_assoc]
    exact Nat.mul_le_mul_left 4 hmul
  have hge : (4 * units : ℚ) ≤ quarters ⟨below + 1, exponent⟩ := by
    rw [quarters_eq_div, le_div_iff₀ hden]
    have hlt : units * (gridStep exponent).2 < (below + 1) * (gridStep exponent).1 := by
      rw [← Nat.div_lt_iff_lt_mul (gridStep_fst_pos exponent), ← hbelow]
      exact Nat.lt_succ_self below
    norm_cast
    rw [Nat.mul_assoc]
    exact Nat.mul_le_mul_left 4 hlt.le
  have hordered := (RoundingInterval.ofUnits units).ordConnected_toSet
  rcases Nat.lt_or_ge below digits with hlt | hge'
  · exact hneither.2 (hordered.out hself hmem ⟨hge, quarters_le hlt le_rfl⟩)
  · exact hneither.1 (hordered.out hmem hself ⟨quarters_le hge' le_rfl, hle⟩)

/-! ### The search for a grid -/

theorem contains_of_onGrid? {units : Nat} {exponent : Int} {d : Decimal}
    (h : onGrid? units exponent = some d) :
    d.exponent = exponent ∧ (RoundingInterval.ofUnits units).contains
      (4 * d.digits * (gridStep exponent).1) (gridStep exponent).2 = true := by
  unfold onGrid? at h
  dsimp only at h
  split at h
  next hbelow habove =>
    cases h
    split
    · exact ⟨rfl, hbelow⟩
    · exact ⟨rfl, habove⟩
  next hbelow _ => cases h; exact ⟨rfl, hbelow⟩
  next _ habove => cases h; exact ⟨rfl, habove⟩
  next => cases h

/-- The search stops no later than at a grid that has a point, and passes only grids without one. -/
theorem exists_onGrid?_firstOnGrid {units count : Nat} {top exponent : Int}
    (hpoint : (onGrid? units exponent).isSome = true) (hle : exponent ≤ top)
    (hcount : top ≤ exponent + count) :
    ∃ found, exponent ≤ found ∧ onGrid? units found = some (firstOnGrid units top count) ∧
      ∀ coarser, found < coarser → coarser ≤ top → onGrid? units coarser = none := by
  induction count generalizing top with
  | zero =>
    obtain rfl : exponent = top := by omega
    refine ⟨exponent, Int.le_refl _, ?_, fun coarser hlt hle => absurd hle (Int.not_le.2 hlt)⟩
    obtain ⟨d, hd⟩ := Option.isSome_iff_exists.1 hpoint
    rw [firstOnGrid, hd, Option.getD_some]
  | succ count ih =>
    rw [firstOnGrid]
    cases htop : onGrid? units top with
    | some d => exact ⟨top, hle, htop, fun coarser hlt hle => absurd hle (Int.not_le.2 hlt)⟩
    | none =>
      have hne : exponent ≠ top := by
        rintro rfl
        rw [htop] at hpoint
        cases hpoint
      have hbelow : exponent ≤ top - 1 := by omega
      obtain ⟨found, hfound, hfirst, hnone⟩ := ih hbelow (by omega)
      refine ⟨found, hfound, hfirst, fun coarser hlt hle => ?_⟩
      rcases Int.lt_or_eq_of_le hle with hlower | rfl
      · exact hnone coarser hlt (by omega)
      · exact htop

/-- A number that lies on a grid of whole numbers is the point of that grid. -/
theorem onGrid?_of_eq {units point step : Nat} {exponent : Int} (hunits : 2 ^ 52 ≤ units)
    (hgrid : gridStep exponent = (step, 1)) (hstep : 0 < step) (hpoint : units = point * step) :
    onGrid? units exponent = some ⟨point, exponent⟩ := by
  have hbelow : units * 1 / step = point := by
    rw [Nat.mul_one, hpoint, Nat.mul_div_cancel _ hstep]
  have hfits : (RoundingInterval.ofUnits units).contains (4 * point * step) 1 = true := by
    rw [Nat.mul_assoc, ← hpoint]
    exact RoundingInterval.contains_self hunits
  have hnearer : 2 * units * 1 < (2 * point + 1) * step := by
    rw [Nat.mul_one, hpoint, ← Nat.mul_assoc]
    exact Nat.mul_lt_mul_of_pos_right (Nat.lt_succ_self _) hstep
  unfold onGrid?
  rw [hgrid]
  dsimp only
  rw [hbelow, hfits]
  split
  next => rw [if_pos hnearer]
  next => rfl
  next heq _ => cases heq
  next heq _ => cases heq

section Whole

variable {n : Nat} (hn : 0 < n)

theorem gridStep_natCast (e : Nat) : gridStep (e : Int) = (10 ^ e * unitsPerOne, 1) :=
  if_pos (Int.natCast_nonneg e)

include hn

theorem le_units : 2 ^ 52 ≤ n * unitsPerOne := by
  have hone : 2 ^ 52 ≤ unitsPerOne := by
    have hexponent : 52 ≤ 1074 := by decide
    unfold unitsPerOne
    generalize 1074 = exponent at hexponent ⊢
    exact Nat.pow_le_pow_right Nat.two_pos hexponent
  exact hone.trans (Nat.le_mul_of_pos_left _ hn)

theorem onGrid?_of_dvd {e : Nat} (h : 10 ^ e ∣ n) :
    onGrid? (n * unitsPerOne) e = some ⟨n / 10 ^ e, e⟩ := by
  have hpos : 0 < 10 ^ e := Nat.pow_pos (by decide)
  have hpoint : n * unitsPerOne = n / 10 ^ e * (10 ^ e * unitsPerOne) := by
    rw [← Nat.mul_assoc, Nat.div_mul_cancel h]
  exact onGrid?_of_eq (le_units hn) (gridStep_natCast e) (Nat.mul_pos hpos unitsPerOne_pos) hpoint

theorem near_of_quarters_mem {digits e : Nat}
    (h : quarters ⟨digits, e⟩ ∈ (RoundingInterval.ofUnits (n * unitsPerOne)).toSet) :
    Near n (digits * 10 ^ e) := by
  rw [← contains_iff_quarters_mem, gridStep_natCast, ← Nat.mul_assoc digits] at h
  exact (RoundingInterval.near_of_contains (le_units hn) h).of_mul unitsPerOne_pos

/-- No power of ten above a whole number is near it. -/
theorem quarters_notMem_of_length_lt {e : Nat} (he : (Nat.toDigits 10 n).length < e) (digits : Nat) :
    quarters ⟨digits, e⟩ ∉ (RoundingInterval.ofUnits (n * unitsPerOne)).toSet := by
  intro hmem
  have hnear := near_of_quarters_mem hn hmem
  have hdigits : 1 ≤ digits := Nat.pos_of_mul_pos_right (hnear.pos hn)
  have hlt : n < 10 ^ (Nat.toDigits 10 n).length :=
    (Nat.length_toDigits_le_iff (by decide) Nat.length_toDigits_pos).1 (Nat.le_refl _)
  have hgreater : 10 * n < digits * 10 ^ e :=
    calc
      10 * n < 10 * 10 ^ (Nat.toDigits 10 n).length := Nat.mul_lt_mul_of_pos_left hlt (by decide)
      _ = 10 ^ ((Nat.toDigits 10 n).length + 1) := (Nat.pow_succ' ..).symm
      _ ≤ 10 ^ e := Nat.pow_le_pow_right (by decide) he
      _ ≤ digits * 10 ^ e := Nat.le_mul_of_pos_left _ hdigits
  have habove := hnear.above
  omega

/-- The shortest form of a whole number is a whole number that rounds to it, and the number itself if that
is on the grid. No coarser grid has a point that rounds to the number. -/
theorem exists_shortest_whole : ∃ digits e : Nat, shortest (n * unitsPerOne) = ⟨digits, e⟩ ∧
    quarters ⟨digits, e⟩ ∈ (RoundingInterval.ofUnits (n * unitsPerOne)).toSet ∧
    (10 ^ e ∣ n → digits * 10 ^ e = n) ∧
    ∀ coarser : Int, e < coarser → ∀ digits',
      quarters ⟨digits', coarser⟩ ∉ (RoundingInterval.ofUnits (n * unitsPerOne)).toSet := by
  have hones : (onGrid? (n * unitsPerOne) ((0 : Nat) : Int)).isSome = true := by
    rw [onGrid?_of_dvd hn (Nat.one_dvd n)]
    rfl
  obtain ⟨found, hfound, hpoint, hnone⟩ := exists_onGrid?_firstOnGrid hones
    (Int.natCast_nonneg (Nat.toDigits 10 (n * unitsPerOne / unitsPerOne)).length)
    (show _ ≤ ((0 : Nat) : Int) + ((Nat.toDigits 10 (n * unitsPerOne / unitsPerOne)).length + 324 : Nat)
      by omega)
  obtain ⟨e, rfl⟩ := Int.eq_ofNat_of_zero_le hfound
  change onGrid? (n * unitsPerOne) (e : Int) = some (shortest (n * unitsPerOne)) at hpoint
  generalize shortest (n * unitsPerOne) = d at hpoint
  obtain ⟨hexponent, hcontains⟩ := contains_of_onGrid? hpoint
  obtain ⟨digits, exponent⟩ := d
  cases hexponent
  rw [Nat.mul_assoc, contains_iff_quarters_mem] at hcontains
  rw [Nat.mul_div_cancel _ unitsPerOne_pos] at hnone
  refine ⟨digits, e, rfl, hcontains, fun hdvd => ?_, fun coarser hlt digits' => ?_⟩
  · rw [onGrid?_of_dvd hn hdvd] at hpoint
    cases hpoint
    exact Nat.div_mul_cancel hdvd
  · rcases lt_or_ge ((Nat.toDigits 10 n).length : Int) coarser with habove | hle
    · obtain ⟨e', rfl⟩ := Int.eq_ofNat_of_zero_le ((Int.natCast_nonneg _).trans habove.le)
      exact quarters_notMem_of_length_lt hn (by omega) digits'
    · exact quarters_notMem_of_onGrid?_eq_none (le_units hn) (hnone coarser hlt hle) digits'

/-- What rounds to a whole number has at least as many digits as its shortest form. -/
theorem length_shortest_le {other : Decimal}
    (h : other.quarters ∈ (RoundingInterval.ofUnits (n * unitsPerOne)).toSet) :
    (Nat.toDigits 10 (shortest (n * unitsPerOne)).digits).length ≤
      (Nat.toDigits 10 other.digits).length := by
  obtain ⟨digits, e, hshortest, hmem, -, hcoarser⟩ := exists_shortest_whole hn
  obtain ⟨digits', exponent⟩ := other
  rw [hshortest]
  dsimp only
  have hpos : 0 < (Nat.toDigits 10 digits').length := Nat.length_toDigits_pos
  have hlt : digits' < 10 ^ (Nat.toDigits 10 digits').length :=
    (Nat.length_toDigits_le_iff (by decide) hpos).1 (Nat.le_refl _)
  rw [Nat.length_toDigits_le_iff (by decide) hpos]
  generalize (Nat.toDigits 10 digits').length = places at hpos hlt ⊢
  by_contra hlonger
  rcases lt_or_ge (e : Int) exponent with habove | hle
  · exact hcoarser exponent habove digits' h
  · -- a power of ten lies between, and so on a coarser grid
    have hbetween := (RoundingInterval.ofUnits (n * unitsPerOne)).ordConnected_toSet.out h hmem
      ⟨quarters_le hlt.le hle, quarters_le (Nat.not_lt.1 hlonger) le_rfl⟩
    rw [← Nat.one_mul (10 ^ places), quarters_mul_pow] at hbetween
    exact hcoarser (e + places) (by omega) 1 hbetween

end Whole

/-! ### The text -/

theorem toDigits_mul_pow {digits : Nat} (hdigits : 0 < digits) (e : Nat) :
    Nat.toDigits 10 (digits * 10 ^ e) = Nat.toDigits 10 digits ++ List.replicate e '0' := by
  induction e with
  | zero => rw [Nat.pow_zero, Nat.mul_one, List.replicate_zero, List.append_nil]
  | succ e ih =>
    have hpos : 0 < digits * 10 ^ e := Nat.mul_pos hdigits (Nat.pow_pos (by decide))
    rw [Nat.pow_succ, ← Nat.mul_assoc, Nat.toDigits_of_base_le (by decide) (by omega),
      Nat.mul_div_cancel _ (by decide), Nat.mul_mod_left, ih, List.replicate_succ', List.append_assoc]
    rfl

/-- The shortest form of a whole number is written as a whole number near it, and as the number itself
up to `2 ^ 53`. -/
theorem exists_toText_shortest {n : Nat} (hn : 0 < n) : ∃ digits e : Nat,
    shortest (n * unitsPerOne) = ⟨digits, e⟩ ∧
    (shortest (n * unitsPerOne)).toText = Nat.toDigits 10 (digits * 10 ^ e) ∧
    Near n (digits * 10 ^ e) ∧ (n ≤ 2 ^ 53 → digits * 10 ^ e = n) := by
  obtain ⟨digits, e, hshortest, hmem, hgrid, -⟩ := exists_shortest_whole hn
  have hnear := near_of_quarters_mem hn hmem
  refine ⟨digits, e, hshortest, ?_, hnear, fun hle => ?_⟩
  · rw [hshortest, toText, toDigits_mul_pow (Nat.pos_of_mul_pos_right (hnear.pos hn))]
    exact if_pos (Int.natCast_nonneg e)
  · cases e with
    | zero => exact hgrid (Nat.one_dvd n)
    | succ e =>
      have hten : 10 ∣ digits * 10 ^ (e + 1) := (Nat.dvd_mul_left 10 (10 ^ e)).mul_left digits
      exact hnear.eq_of_ten_dvd hle hten

end Decimal

end PatternText
