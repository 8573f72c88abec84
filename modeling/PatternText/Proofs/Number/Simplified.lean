import PatternText.Proofs.Number.ReadingBack
import PatternText.Proofs.Number.Trimming

/-! Simplified numbers. Simplifying takes the zeros off the end of the fraction, and the point when nothing
is left behind it, so the text denotes the same number. A whole number is written in its shortest form
instead, with the fewest digits that read back as the number. Up to `2 ^ 53` and from `10 ^ 21` on that
makes no difference; in between the two texts agree just when the shortest form is exact. -/

namespace PatternText

/-! ### The texts of a number -/

namespace Exact

/-- The sign before the digits: zero has none. -/
def signText (e : Exact) : List Char :=
  if e.isBelowZero then ['-'] else []

variable (e : Exact)

theorem signText_eq : e.signText = if e.value < 0 then ['-'] else [] := by
  simp only [signText, e.value_neg_iff]

theorem point_notMem_signText : '.' ∉ e.signText := by
  unfold signText
  split <;> decide

/-- The digits of a whole number with the sign of another denote it with that sign. -/
theorem decimalValue_signText_toDigits (n : Nat) :
    decimalValue (e.signText ++ Nat.toDigits 10 n) = if e.isBelowZero then -(n : ℚ) else n := by
  have hvalue := magnitudeValue_toDigits n
  unfold signText
  split
  · exact congrArg (-·) hvalue
  · exact (decimalValue_of_head_ne (head?_toDigits_ne n)).trans hvalue

/-- A whole number has only zeros behind the point. -/
theorem fixedDigits_of_isWhole (h : e.isWhole = true) (places : Nat) :
    e.fixedDigits places = pointed (Nat.toDigits 10 e.whole) (List.replicate places '0') := by
  have htoPlaces : e.toPlaces places = e.whole * 10 ^ places := by
    have hfloor := e.toPlaces_eq_floor places
    rw [e.abs_value_of_isWhole h, ← Nat.cast_ofNat, ← Nat.cast_pow, ← Nat.cast_mul,
      Int.floor_natCast_add] at hfloor
    norm_num at hfloor
    exact_mod_cast hfloor
  have hnumeral := numeral_append_zeros 0 places e.whole
  rw [Nat.zero_add] at hnumeral
  rw [e.fixedDigits_eq, htoPlaces, hnumeral]
  cases places <;> simp [numeral, pointed]

/-- The digits are a whole part and a fraction, and no other point is among them. -/
theorem exists_fixedDigits_pointed (places : Nat) : ∃ whole fraction, '.' ∉ whole ∧ '.' ∉ fraction ∧
    (fraction = [] ↔ places = 0) ∧ e.fixedDigits places = pointed whole fraction := by
  obtain ⟨whole, fraction, hspells, hdigits⟩ := e.exists_spells_fixedDigits places
  have hpoint : '.' ∉ whole ++ fraction := fun h => absurd (hspells.isDigit _ h) (by decide)
  have hempty : fraction = [] ↔ places = 0 := by
    rw [← hspells.length_fraction, List.length_eq_zero_iff]
  rw [List.mem_append, not_or] at hpoint
  refine ⟨whole, fraction, hpoint.1, hpoint.2, hempty, ?_⟩
  rw [hdigits, pointed]
  by_cases hplaces : places = 0
  · rw [if_pos hplaces, if_pos (hempty.2 hplaces)]
  · rw [if_neg hplaces, if_neg (mt hempty.1 hplaces)]

end Exact

section Texts

variable {x : Float} {e : Exact} (he : Exact.ofFloat? x = some e)
include he

theorem floatValue?_of_ofFloat? : floatValue? x = some e.value := by
  rw [floatValue?_eq, he]
  rfl

/-- The plain text of a whole number spells its shortest form as a whole number near it. -/
theorem exists_plainText_whole (hwhole : e.isWhole = true) : ∃ digits exponent : ℕ,
    (plainText x).toList = e.signText ++ Nat.toDigits 10 (digits * 10 ^ exponent) ∧
    Decimal.IsShortest ⟨digits, exponent⟩ e.value ∧
    (readFloat? (plainText x).toList).bind floatValue? = some e.value ∧
    Near e.whole (digits * 10 ^ exponent) ∧ (e.whole ≤ 2 ^ 53 → digits * 10 ^ exponent = e.whole) := by
  have hvalue := floatValue?_of_ofFloat? he
  have hzero := beq_zero_iff hvalue
  have hunits := e.isWhole_iff.1 hwhole
  have habs := e.abs_value_of_isWhole hwhole
  rcases Nat.eq_zero_or_pos e.whole with hnone | hpos
  · have hnull : e.value = 0 := by rwa [hnone, Nat.cast_zero, abs_eq_zero] at habs
    have hsign : e.isBelowZero = false := by simp [Exact.isBelowZero, hunits, hnone]
    rw [plainText, if_pos (hzero.2 hnull), hnull, hnone, Exact.signText, hsign]
    exact ⟨0, 0, rfl, Decimal.isShortest_zero, by decide +kernel, Near.refl 0, fun _ => rfl⟩
  · have hne : e.units ≠ 0 := hunits ▸ (Nat.mul_pos hpos unitsPerOne_pos).ne'
    have hnonzero : ¬e.value = 0 := by
      intro h
      rw [h, abs_zero] at habs
      exact hpos.ne (Nat.cast_injective habs)
    obtain ⟨digits, exponent, hshortest, htext, hnear, hexact⟩ := Decimal.exists_toText_shortest hpos
    obtain ⟨hfewest, hreads⟩ := Decimal.isShortest_shortest he hwhole hpos hshortest
    have hsign : e.signText = if e.negative then ['-'] else [] := by
      rw [Exact.signText, Exact.isBelowZero, bne_iff_ne.2 hne, Bool.and_true]
    have hplain : (plainText x).toList = e.signText ++ Nat.toDigits 10 (digits * 10 ^ exponent) := by
      rw [plainText, if_neg (mt hzero.1 hnonzero), floatText, he]
      dsimp only
      rw [if_neg hne, String.toList_ofList, hunits, htext, hsign]
      split <;> rfl
    refine ⟨digits, exponent, hplain, hfewest, ?_, hnear, hexact⟩
    rw [hplain, hsign, readFloat?_toDigits, hreads]
    exact hvalue

theorem toList_fixedText (hlimit : e.units < fixedLimit) (places : Nat) :
    (fixedText x places).toList = e.signText ++ e.fixedDigits places := by
  rw [fixedText_of_lt he hlimit, String.toList_ofList, Exact.signText]
  split <;> rfl

/-- From `10 ^ 21` on there are only whole numbers. -/
theorem isWhole_of_fixedLimit_le (hlimit : fixedLimit ≤ e.units) : e.isWhole = true := by
  have hsmall : 2 ^ 52 ≤ fixedLimit := Decimal.le_units (Nat.pow_pos (by decide))
  have hfraction : x.toBits.toNat % Nat.pow 2 52 < 2 ^ 52 := Nat.mod_lt _ (Nat.two_pow_pos 52)
  rw [Exact.ofFloat?] at he
  split at he
  next => cases he
  next =>
    split at he
    next =>
      cases he
      exact absurd hlimit (Nat.not_le.2 (hfraction.trans_le hsmall))
    next =>
      cases he
      generalize x.toBits.toNat / Nat.pow 2 52 % 2048 - 1 = k at hlimit ⊢
      generalize x.toBits.toNat % Nat.pow 2 52 = fraction at hfraction hlimit ⊢
      rw [Exact.isWhole, beq_iff_eq]
      dsimp only [fixedLimit, unitsPerOne] at hlimit ⊢
      generalize 1074 = one at hlimit ⊢
      rw [Nat.pow_eq, Nat.pow_eq, Nat.pow_eq, Nat.pow_eq] at hlimit
      rw [Nat.pow_eq, Nat.pow_eq, Nat.pow_eq]
      rcases Nat.le_total one k with hle | hle
      · exact Nat.mod_eq_zero_of_dvd ((Nat.pow_dvd_pow 2 hle).mul_left _)
      · have hpow : 2 ^ k ≤ 2 ^ one := Nat.pow_le_pow_right Nat.two_pos hle
        have hlt : (2 ^ 52 + fraction) * 2 ^ k < 10 ^ 21 * 2 ^ one :=
          Nat.mul_lt_mul_of_lt_of_le (by omega) hpow (Nat.two_pow_pos one)
        exact absurd hlimit (Nat.not_le.2 hlt)

/-- Dropping zeros from a text with places trims its fraction, and without places there is none. -/
theorem trimFraction_fixedText (hlimit : e.units < fixedLimit) (places : Nat) :
    trimFraction (fixedText x places).toList =
      (if places = 0 then fixedText x places else dropTrailingZeros (fixedText x places)).toList := by
  obtain ⟨whole, fraction, hpoint, hfraction, hempty, hdigits⟩ := e.exists_fixedDigits_pointed places
  have htext : (fixedText x places).toList = pointed (e.signText ++ whole) fraction := by
    rw [toList_fixedText he hlimit, hdigits, pointed, pointed, List.append_assoc]
  have hsigned : '.' ∉ e.signText ++ whole := by
    rw [List.mem_append, not_or]
    exact ⟨e.point_notMem_signText, hpoint⟩
  by_cases hplaces : places = 0
  · rw [if_pos hplaces, htext, trimFraction_pointed hsigned, hempty.2 hplaces, List.rdropWhile_nil]
  · rw [if_neg hplaces, ← String.ofList_toList (s := fixedText x places), htext,
      dropTrailingZeros_pointed hsigned hfraction (mt hempty.1 hplaces), String.toList_ofList]

/-- What is not whole is written with places, and simplifying trims the fraction. -/
theorem apply_simplified_of_not_isWhole (hwhole : e.isWhole = false) (places : UInt64) :
    (NumberFormat.apply { places := some places, simplify := true } x).toList =
      trimFraction (NumberFormat.apply { places := some places, simplify := false } x).toList := by
  have hlimit : e.units < fixedLimit := by
    by_contra hlarge
    rw [isWhole_of_fixedLimit_le he (Nat.not_lt.1 hlarge)] at hwhole
    cases hwhole
  have hfixed : NumberFormat.apply { places := some places, simplify := false } x =
      fixedText x places.toNat := rfl
  rw [hfixed, trimFraction_fixedText he hlimit, NumberFormat.apply, he]
  dsimp only
  rw [Option.map_some, hwhole]
  by_cases hplaces : places = 0
  · rw [hplaces]
    rfl
  · have hpositive : places.toNat ≠ 0 := fun h => hplaces (UInt64.toNat_inj.1 h)
    simp [hplaces, hpositive]

theorem apply_simplified_of_isWhole (hwhole : e.isWhole = true) (places : UInt64) :
    NumberFormat.apply { places := some places, simplify := true } x = plainText x := by
  rw [NumberFormat.apply, he]
  exact if_pos hwhole

/-- With places the trimmed text of a whole number is that of the number itself, unless it is so large that
it is never given places. -/
theorem exists_trimFraction_whole (hwhole : e.isWhole = true) (places : UInt64) {m : Nat}
    (hplain : (plainText x).toList = e.signText ++ Nat.toDigits 10 m)
    (hexact : e.whole ≤ 2 ^ 53 → m = e.whole) :
    ∃ trimmed, trimFraction (NumberFormat.apply { places := some places, simplify := false } x).toList =
        e.signText ++ Nat.toDigits 10 trimmed ∧
      (e.whole ≤ 2 ^ 53 ∨ fixedLimit ≤ e.units → m = trimmed) := by
  have hfixed : NumberFormat.apply { places := some places, simplify := false } x =
      fixedText x places.toNat := rfl
  have hnumeral (n : Nat) : '.' ∉ e.signText ++ Nat.toDigits 10 n := by
    rw [List.mem_append, not_or]
    exact ⟨e.point_notMem_signText, point_notMem_toDigits n⟩
  rw [hfixed]
  by_cases hlimit : e.units < fixedLimit
  · refine ⟨e.whole, ?_, fun h => hexact (h.resolve_right (Nat.not_le.2 hlimit))⟩
    have hzeros : (List.replicate places.toNat '0').rdropWhile (· == '0') = [] := by
      rw [List.rdropWhile_eq_nil_iff]
      exact fun c hc => beq_iff_eq.2 (List.eq_of_mem_replicate hc)
    rw [toList_fixedText he hlimit, e.fixedDigits_of_isWhole hwhole, pointed, ← List.append_assoc,
      ← pointed, trimFraction_pointed (hnumeral e.whole), hzeros]
    exact List.append_nil _
  · refine ⟨m, ?_, fun _ => rfl⟩
    have hplaces : fixedText x places.toNat = plainText x := by
      rw [fixedText, he]
      exact if_pos (Nat.not_lt.1 hlimit)
    rw [hplaces, hplain, trimFraction_of_notMem (hnumeral m)]

end Texts

section Guarded

variable (x : Float)

theorem guarded_fixedText {places : Nat} (hplaces : places < 65535) :
    Guarded.fixedText x places = .ok (fixedText x places) := by
  have hlimit : ∀ limit, Guarded.fixedText x places ≠ .error (.limit limit) := by
    intro limit h
    rw [Guarded.fixedText] at h
    generalize fixedLimit = most at h
    cases he : Exact.ofFloat? x with
    | none =>
      rw [he] at h
      cases h
    | some e =>
      rw [he] at h
      dsimp only at h
      rw [dif_neg (Nat.not_le.2 hplaces), guarded_fixedDigits] at h
      split at h <;> cases h
  obtain ⟨text, htext, rfl⟩ := (safe_fixedText x places).exists_ok hlimit
  exact htext

/-- Where so many places are allowed the text is found without failing, simplified or not. -/
theorem guarded_applyFormat {places : UInt64} (hplaces : places.toNat < 65535) (simplify : Bool) :
    Guarded.applyFormat { places := some places, simplify := simplify } x =
      .ok (NumberFormat.apply { places := some places, simplify := simplify } x) := by
  have hlimit : ∀ limit, Guarded.applyFormat { places := some places, simplify := simplify } x ≠
      .error (.limit limit) := by
    intro limit h
    rw [Guarded.applyFormat] at h
    dsimp only at h
    rw [guarded_fixedText x hplaces] at h
    split at h
    next => cases h
    next =>
      change (if _ then _ else _) = _ at h
      split at h
      next =>
        cases hslice : sliceTo? (fixedText x places.toNat).toList
            (dropTrailingZeros (fixedText x places.toNat)).utf8ByteSize with
        | none =>
          rw [hslice] at h
          cases h
        | some text =>
          rw [hslice] at h
          cases h
      next => cases h
  obtain ⟨text, htext, rfl⟩ := (safe_applyFormat _ x).exists_ok hlimit
  exact htext

end Guarded

/-- Simplifying takes the zeros off the end of the fraction and then the point, and leaves the number that
the text denotes, for every number that is not whole, for the whole ones up to `2 ^ 53` and for those
from `10 ^ 21` on. Every whole number is written plainly: without a point, with the fewest digits that read
back as the number and zeros behind them, at most one part in `2 ^ 53` off. This text is the trimmed one
just when both denote the same number. -/
theorem simplified_trims {x : Float} {value : ℚ} {places : UInt64} (hx : floatValue? x = some value)
    (hplaces : places.toNat < 65535) :
    let fixed := (NumberFormat.apply { places := some places, simplify := false } x).toList
    let simplified := (NumberFormat.apply { places := some places, simplify := true } x).toList
    ((¬∃ n : ℤ, value = n) ∨ |value| ≤ 2 ^ 53 ∨ 10 ^ 21 ≤ |value| →
      simplified = trimFraction fixed ∧ decimalValue simplified = decimalValue fixed) ∧
    ((∃ n : ℤ, value = n) →
      simplified = (plainText x).toList ∧
      (∃ digits exponent : ℕ,
        simplified = (if value < 0 then ['-'] else []) ++ Nat.toDigits 10 (digits * 10 ^ exponent) ∧
        Decimal.IsShortest ⟨digits, exponent⟩ value) ∧
      (readFloat? simplified).bind floatValue? = some value ∧
      |decimalValue simplified - value| ≤ |value| / 2 ^ 53 ∧
      (simplified = trimFraction fixed ↔ decimalValue simplified = decimalValue fixed)) ∧
    ∀ simplify, Guarded.applyFormat { places := some places, simplify := simplify } x =
      .ok (NumberFormat.apply { places := some places, simplify := simplify } x) := by
  intro fixed simplified
  rw [floatValue?_eq, Option.map_eq_some_iff] at hx
  obtain ⟨e, he, rfl⟩ := hx
  have hdenotes (h : simplified = trimFraction fixed) : decimalValue simplified = decimalValue fixed :=
    h ▸ decimalValue_trimFraction fixed
  have hplainly (h : e.isWhole = true) : simplified = (plainText x).toList :=
    congrArg String.toList (apply_simplified_of_isWhole he h places)
  refine ⟨?trims, ?whole, guarded_applyFormat x hplaces⟩
  case trims =>
    intro h
    suffices simplified = trimFraction fixed from ⟨this, hdenotes this⟩
    cases hwhole : e.isWhole with
    | false => exact apply_simplified_of_not_isWhole he hwhole places
    | true =>
      obtain ⟨digits, exponent, hplain, -, -, -, hexact⟩ := exists_plainText_whole he hwhole
      obtain ⟨trimmed, htrimmed, hsame⟩ := exists_trimFraction_whole he hwhole places hplain hexact
      have hcases : e.whole ≤ 2 ^ 53 ∨ fixedLimit ≤ e.units := by
        rw [e.abs_value_of_isWhole hwhole] at h
        rcases h with hnone | hsmall | hlarge
        · exact absurd (e.isWhole_iff_exists_int.1 hwhole) hnone
        · exact .inl (by exact_mod_cast hsmall)
        · refine .inr ?_
          rw [e.isWhole_iff.1 hwhole]
          exact Nat.mul_le_mul_right _ (by exact_mod_cast hlarge)
      rw [hsame hcases] at hplain
      exact (hplainly hwhole).trans (hplain.trans htrimmed.symm)
  case whole =>
    intro h
    have hwhole := e.isWhole_iff_exists_int.2 h
    obtain ⟨digits, exponent, hplain, hshortest, hreads, hnear, hexact⟩ := exists_plainText_whole he hwhole
    obtain ⟨trimmed, htrimmed, -⟩ := exists_trimFraction_whole he hwhole places hplain hexact
    change trimFraction fixed = _ at htrimmed
    have hsimplified := (hplainly hwhole).trans hplain
    rw [← e.signText_eq]
    refine ⟨hplainly hwhole, ⟨digits, exponent, hsimplified, hshortest⟩, hplainly hwhole ▸ hreads, ?_,
      hdenotes, fun hvalue => ?_⟩
    · have hclose := hnear.abs_sub_le
      rw [hsimplified, e.decimalValue_signText_toDigits, e.value_eq_abs, e.abs_value_of_isWhole hwhole]
      split
      · rwa [abs_neg, Nat.abs_cast, neg_sub_neg, abs_sub_comm]
      · rwa [Nat.abs_cast]
    · rw [← decimalValue_trimFraction fixed, hsimplified, htrimmed, e.decimalValue_signText_toDigits,
        e.decimalValue_signText_toDigits] at hvalue
      have heq : digits * 10 ^ exponent = trimmed := by
        split at hvalue
        · exact Nat.cast_injective (neg_injective hvalue)
        · exact Nat.cast_injective hvalue
      rw [hsimplified, htrimmed, heq]

/-- A fraction of which only the first place is not zero. -/
theorem minusTwoAndHalf_simplified :
    floatValue? (-2.5) = some (-5 / 2) ∧ (3 : UInt64).toNat < 65535 ∧
    NumberFormat.apply { places := some 3, simplify := true } (-2.5) = "-2.5" ∧
    (NumberFormat.apply { places := some 3, simplify := true } (-2.5)).toList =
      trimFraction (NumberFormat.apply { places := some 3, simplify := false } (-2.5)).toList ∧
    Guarded.applyFormat { places := some 3, simplify := true } (-2.5) =
      .ok (NumberFormat.apply { places := some 3, simplify := true } (-2.5)) := by
  have hvalue : floatValue? (-2.5) = some (-5 / 2) := by decide +kernel
  have hplaces : (3 : UInt64).toNat < 65535 := by decide
  obtain ⟨htrims, -, hguarded⟩ := simplified_trims hvalue hplaces
  have hsmall : |(-5 / 2 : ℚ)| ≤ 2 ^ 53 := by decide +kernel
  exact ⟨hvalue, hplaces, by decide +kernel, (htrims (.inr (.inl hsmall))).1, hguarded true⟩

/-- The shortest form of `2 ^ 56` ends with a zero that its exact form has not. -/
theorem longWhole_not_trimmed :
    floatValue? 72057594037927936 = some 72057594037927936 ∧
    NumberFormat.apply { places := some 0, simplify := true } 72057594037927936 = "72057594037927940" ∧
    trimFraction (NumberFormat.apply { places := some 0, simplify := false } 72057594037927936).toList =
      "72057594037927936".toList ∧
    ¬∀ (x : Float) (value : ℚ) (places : UInt64),
      floatValue? x = some value → places.toNat < 65535 →
      (NumberFormat.apply { places := some places, simplify := true } x).toList =
        trimFraction (NumberFormat.apply { places := some places, simplify := false } x).toList := by
  have hvalue : floatValue? 72057594037927936 = some 72057594037927936 := by decide +kernel
  have hsimplified : NumberFormat.apply { places := some 0, simplify := true } 72057594037927936 =
      "72057594037927940" := by decide +kernel
  have htrimmed : trimFraction
      (NumberFormat.apply { places := some 0, simplify := false } 72057594037927936).toList =
      "72057594037927936".toList := by decide +kernel
  refine ⟨hvalue, hsimplified, htrimmed, fun h => ?_⟩
  have hsame := h 72057594037927936 _ 0 hvalue (by decide)
  rw [hsimplified, htrimmed] at hsame
  exact absurd hsame (by decide +kernel)

end PatternText
