import PatternText.Proofs.Guarded.Digits
import PatternText.Proofs.Number.Value

/-! Numbers with a fixed number of places. The text is that of the exact value rounded at the last place,
a half going away from zero: a sign before what is below zero, a whole part without superfluous zeros,
and behind a point as many digits as there are places. Rounding the exact decimal expansion digit by
digit, with carries where nines stand, gives the same text. -/

namespace PatternText

/-- The characters spell a number with so many decimal places, which has this value. -/
structure Spells (places : Nat) (value : ℚ) (whole fraction : List Char) : Prop where
  length_fraction : fraction.length = places
  whole_ne_nil : whole ≠ []
  isDigit : ∀ c ∈ whole ++ fraction, c.isDigit = true
  /-- A zero in front stands alone. -/
  head_zero : whole.head? = some '0' → whole = ['0']
  value_eq : (Nat.ofDigitChars 10 (whole ++ fraction) 0 : ℚ) / 10 ^ places = value

/-! ### Numerals -/

theorem toDigits_head_zero {n : Nat} (h : (Nat.toDigits 10 n).head? = some '0') :
    Nat.toDigits 10 n = ['0'] := by
  induction n using Nat.strongRecOn with
  | _ n ih =>
    by_cases hlt : n < 10
    · rw [Nat.toDigits_of_lt_base hlt] at h ⊢
      exact congrArg (fun c => [c]) (Option.some.inj h)
    · have hfront : (Nat.toDigits 10 (n / 10)).head? = some '0' := by
        rw [Nat.toDigits_of_base_le (by decide) (Nat.not_lt.1 hlt),
          List.head?_append_of_ne_nil _ Nat.toDigits_ne_nil] at h
        exact h
      have hzero : n / 10 = 0 := by
        have hvalue := congrArg (Nat.ofDigitChars 10 · 0) (ih (n / 10) (by omega) hfront)
        rwa [Nat.ofDigitChars_ten_toDigits] at hvalue
      omega

theorem isDigit_of_mem_numeral {places n : Nat} {c : Char} (h : c ∈ numeral places n) :
    c.isDigit = true := by
  induction places generalizing n with
  | zero => exact Nat.isDigit_of_mem_toDigits (by decide) (by decide) h
  | succ places ih =>
    rcases List.mem_append.1 h with h | h
    · exact ih h
    · rw [List.mem_singleton.1 h, Nat.isDigit_digitChar]
      exact decide_eq_true (Nat.mod_lt n (by decide))

theorem ofDigitChars_numeral (places n : Nat) : Nat.ofDigitChars 10 (numeral places n) 0 = n := by
  induction places generalizing n with
  | zero => exact Nat.ofDigitChars_ten_toDigits
  | succ places ih =>
    calc
      Nat.ofDigitChars 10 (numeral places (n / 10) ++ [(n % 10).digitChar]) 0
        = Nat.ofDigitChars 10 [(n % 10).digitChar] (n / 10) := by rw [Nat.ofDigitChars_append, ih]
      _ = 10 * (n / 10) + n % 10 := by
          rw [Nat.ofDigitChars_cons_digitChar_of_lt_ten (Nat.mod_lt n (by decide)),
            Nat.ofDigitChars_nil]
      _ = n := Nat.div_add_mod n 10

/-- A numeral cut before its places spells the number in units of the last place. -/
theorem spells_numeral (places n : Nat) :
    Spells places (n / 10 ^ places)
      ((numeral places n).take ((numeral places n).length - places))
      ((numeral places n).drop ((numeral places n).length - places)) := by
  obtain ⟨fraction, hnumeral, hlength⟩ := exists_numeral_add 0 places n
  rw [Nat.zero_add, numeral] at hnumeral
  have hwhole : (numeral places n).length - places = (Nat.toDigits 10 (n / 10 ^ places)).length := by
    rw [hnumeral, List.length_append, hlength, Nat.add_sub_cancel]
  have hdigit : ∀ c ∈ numeral places n, c.isDigit = true := fun _ => isDigit_of_mem_numeral
  have hvalue := ofDigitChars_numeral places n
  rw [hwhole]
  rw [hnumeral] at hdigit hvalue ⊢
  rw [List.take_left, List.drop_left]
  exact ⟨hlength, Nat.toDigits_ne_nil, hdigit, toDigits_head_zero, by rw [hvalue]⟩

/-! ### Rounding -/

namespace Exact

/-- In units of the last place the magnitude is rounded to the nearest whole number, a half up. -/
theorem toPlaces_eq_floor (e : Exact) (places : Nat) :
    (e.toPlaces places : ℤ) = ⌊|e.value| * 10 ^ places + 1 / 2⌋ := by
  have hpos := unitsPerOne_pos
  rw [abs_value, toPlaces, Nat.pow_eq]
  generalize unitsPerOne = u at hpos
  have hu : (u : ℚ) ≠ 0 := Nat.cast_ne_zero.2 (Nat.pos_iff_ne_zero.1 hpos)
  have hratio : (e.units / u * 10 ^ places + 1 / 2 : ℚ) =
      ((2 * e.units * 10 ^ places + u : ℕ) : ℚ) / ((2 * u : ℕ) : ℚ) := by
    push_cast
    field_simp
  rw [hratio, Rat.floor_natCast_div_natCast, Int.natCast_ediv]

theorem units_lt_fixedLimit {e : Exact} (h : |e.value| < 10 ^ 21) : e.units < fixedLimit := by
  have hpos := unitsPerOne_pos
  rw [abs_value] at h
  unfold fixedLimit
  generalize unitsPerOne = u at h hpos ⊢
  rw [div_lt_iff₀ (Nat.cast_pos.2 hpos)] at h
  rw [Nat.pow_eq]
  exact_mod_cast h

/-- The digits with the point among them spell the rounded magnitude. -/
theorem exists_spells_fixedDigits (e : Exact) (places : Nat) :
    ∃ whole fraction,
      Spells places (⌊|e.value| * 10 ^ places + 1 / 2⌋ / 10 ^ places) whole fraction ∧
      e.fixedDigits places = whole ++ if places = 0 then [] else '.' :: fraction := by
  have hspells := spells_numeral places (e.toPlaces places)
  have hfloor : (e.toPlaces places : ℚ) = (⌊|e.value| * 10 ^ places + 1 / 2⌋ : ℤ) := by
    rw [← e.toPlaces_eq_floor, Int.cast_natCast]
  rw [hfloor] at hspells
  refine ⟨_, _, hspells, ?_⟩
  rw [e.fixedDigits_eq]
  by_cases hzero : places = 0
  · rw [if_pos hzero, List.append_nil]
    exact if_neg (Nat.not_lt.2 (Nat.le_zero.2 hzero))
  · rw [if_neg hzero]
    exact if_pos (Nat.pos_of_ne_zero hzero)

end Exact

section Fixed

variable {x : Float} {e : Exact} (he : Exact.ofFloat? x = some e) (hlimit : e.units < fixedLimit)
include he hlimit

theorem fixedText_of_lt (places : Nat) : fixedText x places =
    String.ofList (if e.isBelowZero then '-' :: e.fixedDigits places else e.fixedDigits places) := by
  rw [fixedText, he]
  exact if_neg (Nat.not_le.2 hlimit)

theorem guarded_fixedText_of_lt {places : Nat} (hplaces : places < 65535) :
    Guarded.fixedText x places = .ok (fixedText x places) := by
  rw [Guarded.fixedText, he, fixedText_of_lt he hlimit]
  dsimp only
  rw [if_neg (Nat.not_le.2 hlimit), dif_neg (Nat.not_le.2 hplaces), guarded_fixedDigits]
  rfl

end Fixed

/-- Every finite number below `10 ^ 21`, taken as the rational number it denotes, is written with any
number of places as that rational number rounded at the last place, a half going away from zero; there
is a sign just when it is below zero. Found one by one the digits are the same. -/
theorem fixed_places_exact {x : Float} {value : ℚ} {places : UInt64} (hx : floatValue? x = some value)
    (hvalue : |value| < 10 ^ 21) (hplaces : places.toNat < 65535) :
    (∃ whole fraction,
      Spells places.toNat (⌊|value| * 10 ^ places.toNat + 1 / 2⌋ / 10 ^ places.toNat) whole fraction ∧
      (NumberFormat.apply { places := some places, simplify := false } x).toList =
        (if value < 0 then ['-'] else []) ++
          (whole ++ if places.toNat = 0 then [] else '.' :: fraction)) ∧
    Guarded.applyFormat { places := some places, simplify := false } x =
      .ok (NumberFormat.apply { places := some places, simplify := false } x) := by
  rw [floatValue?_eq, Option.map_eq_some_iff] at hx
  obtain ⟨e, he, rfl⟩ := hx
  have hlimit := Exact.units_lt_fixedLimit hvalue
  have htext : NumberFormat.apply { places := some places, simplify := false } x =
      fixedText x places.toNat := rfl
  constructor
  · obtain ⟨whole, fraction, hspells, hdigits⟩ := e.exists_spells_fixedDigits places.toNat
    refine ⟨whole, fraction, hspells, ?_⟩
    rw [htext, fixedText_of_lt he hlimit, String.toList_ofList, hdigits]
    by_cases hnegative : e.value < 0
    · rw [if_pos (e.value_neg_iff.1 hnegative), if_pos hnegative]
      rfl
    · rw [if_neg (mt e.value_neg_iff.2 hnegative), if_neg hnegative]
      rfl
  · rw [htext, Guarded.applyFormat]
    dsimp only
    rw [guarded_fixedText_of_lt he hlimit hplaces]
    rfl

/-- A half below zero, with a carry through all digits. -/
theorem minusNineAndHalf_fixed :
    floatValue? (-9.5) = some (-19 / 2) ∧ |(-19 / 2 : ℚ)| < 10 ^ 21 ∧ (0 : UInt64).toNat < 65535 ∧
    NumberFormat.apply { places := some 0, simplify := false } (-9.5) = "-10" ∧
    (∃ whole fraction,
      Spells (0 : UInt64).toNat
        (⌊|(-19 / 2 : ℚ)| * 10 ^ (0 : UInt64).toNat + 1 / 2⌋ / 10 ^ (0 : UInt64).toNat) whole fraction ∧
      (NumberFormat.apply { places := some 0, simplify := false } (-9.5)).toList =
        (if (-19 / 2 : ℚ) < 0 then ['-'] else []) ++
          (whole ++ if (0 : UInt64).toNat = 0 then [] else '.' :: fraction)) ∧
    Guarded.applyFormat { places := some 0, simplify := false } (-9.5) =
      .ok (NumberFormat.apply { places := some 0, simplify := false } (-9.5)) := by
  have hvalue : floatValue? (-9.5) = some (-19 / 2) := by decide +kernel
  have hbelow : |(-19 / 2 : ℚ)| < 10 ^ 21 := by decide +kernel
  have hplaces : (0 : UInt64).toNat < 65535 := by decide
  exact ⟨hvalue, hbelow, hplaces, by decide +kernel, fixed_places_exact hvalue hbelow hplaces⟩

end PatternText
