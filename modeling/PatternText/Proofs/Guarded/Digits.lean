import PatternText.Number.Format
import PatternText.Proofs.Guarded.Slices
import PatternText.Proofs.Guarded.Stop

/-! Decimal places digit by digit. A number is written out exactly, with one place more than is wanted at
least; the digits up to the last wanted place are kept, one is added there when the next digit is five
or more, and the point goes back in front of the wanted places. There are always enough digits for that,
and the text is the one that rounding the exact value gives. Where it is simplified it is cut between two
of its characters. -/

namespace PatternText

/-- The exact magnitude with so many decimal places, at least `exactPlaces`. -/
def Exact.expansion (e : Exact) (places : Nat) : List Char :=
  let fraction := Nat.toDigits 10 (e.units % unitsPerOne * 10 ^ places / unitsPerOne)
  Nat.toDigits 10 e.whole ++ '.' :: (List.replicate (places - fraction.length) '0' ++ fraction)

/-- One more in the last place of a row of digits that is given from its end. -/
def oneMore : List Char → List Char
  | [] => ['1']
  | c :: cs => if c = '9' then '0' :: oneMore cs else Char.ofNat (c.toNat + 1) :: cs

namespace Guarded

/-- The magnitude with so many decimal places. -/
def fixedDigits (e : Exact) (places : Nat) : Guarded (List Char) :=
  let exact := e.expansion (max exactPlaces (places + 1))
  let whole := exact.takeWhile (· != '.')
  let fraction := (exact.dropWhile (· != '.')).tail
  let kept := whole ++ fraction.take places
  let kept := if fraction[places]?.any ('5' ≤ ·) then (oneMore kept.reverse).reverse else kept
  if places ≤ kept.length then
    let whole := kept.take (kept.length - places)
    .ok (if 0 < places then whole ++ '.' :: kept.drop (kept.length - places) else whole)
  else .error (.breach (.digits places))

/-- `x` with so many decimal places. A width is asked for that is one greater. -/
def fixedText (x : Float) (places : Nat) : Guarded String :=
  match Exact.ofFloat? x with
  | none => .ok (plainText x)
  | some e =>
    if fixedLimit ≤ e.units then .ok (plainText x)
    else if h : 65535 ≤ places then .error (.limit (.places places h))
    else do
      let digits ← fixedDigits e places
      .ok (String.ofList (if e.isBelowZero then '-' :: digits else digits))

/-- The text of a number in a format. -/
def applyFormat (format : NumberFormat) (x : Float) : Guarded String :=
  match format.places with
  | none => .ok (plainText x)
  | some places =>
    if format.simplify && ((Exact.ofFloat? x).map Exact.isWhole).getD false then .ok (plainText x)
    else do
      let text ← fixedText x places.toNat
      if format.simplify && places != 0 then
        let bytes := (dropTrailingZeros text).utf8ByteSize
        (require (.offset bytes) (sliceTo? text.toList bytes)).map String.ofList
      else .ok text

end Guarded

/-! ### Numerals -/

/-- The decimal digits of a number, at least one of them before the last `places`. -/
def numeral : Nat → Nat → List Char
  | 0, n => Nat.toDigits 10 n
  | places + 1, n => numeral places (n / 10) ++ [(n % 10).digitChar]

theorem lt_length_numeral (places n : Nat) : places < (numeral places n).length := by
  induction places generalizing n with
  | zero => exact Nat.length_toDigits_pos
  | succ places ih =>
    rw [numeral, List.length_append]
    exact Nat.succ_lt_succ (ih (n / 10))

/-- Filling up with zeros gives the digit before the places. -/
theorem replicate_append_toDigits (places n : Nat) :
    List.replicate (places + 1 - (Nat.toDigits 10 n).length) '0' ++ Nat.toDigits 10 n =
      numeral places n := by
  induction places generalizing n with
  | zero =>
    have hpos : 0 < (Nat.toDigits 10 n).length := Nat.length_toDigits_pos
    rw [show 0 + 1 - (Nat.toDigits 10 n).length = 0 by omega]
    rfl
  | succ places ih =>
    rw [numeral, ← ih (n / 10)]
    by_cases hlt : n < 10
    · rw [Nat.div_eq_of_lt hlt, Nat.mod_eq_of_lt hlt, Nat.toDigits_of_lt_base hlt, Nat.toDigits_zero]
      show List.replicate (places + 1) '0' ++ _ = List.replicate places '0' ++ ['0'] ++ _
      rw [List.replicate_succ']
    · rw [Nat.toDigits_of_base_le (by decide) (Nat.not_lt.1 hlt), List.length_append,
        List.length_singleton, Nat.add_sub_add_right, List.append_assoc]

theorem numeral_append_zeros (places zeros n : Nat) :
    numeral (places + zeros) (n * 10 ^ zeros) = numeral places n ++ List.replicate zeros '0' := by
  induction zeros with
  | zero => rw [Nat.pow_zero, Nat.mul_one, List.replicate_zero, List.append_nil, Nat.add_zero]
  | succ zeros ih =>
    have hshift : n * 10 ^ (zeros + 1) = n * 10 ^ zeros * 10 := by rw [Nat.pow_succ, Nat.mul_assoc]
    rw [← Nat.add_assoc, numeral, hshift, Nat.mul_div_cancel _ (by decide), Nat.mul_mod_left, ih,
      List.replicate_succ', List.append_assoc]
    rfl

/-- The digits of a fraction stand behind those of a whole number. -/
theorem toDigits_append_numeral {whole fraction places : Nat} (h : fraction < 10 ^ (places + 1)) :
    Nat.toDigits 10 whole ++ numeral places fraction =
      numeral (places + 1) (whole * 10 ^ (places + 1) + fraction) := by
  induction places generalizing fraction with
  | zero =>
    rw [Nat.zero_add, Nat.pow_one] at h
    rw [numeral, numeral, numeral, Nat.toDigits_of_lt_base h, Nat.zero_add, Nat.pow_one]
    rw [show (whole * 10 + fraction) / 10 = whole by omega,
      show (whole * 10 + fraction) % 10 = fraction by omega]
  | succ places ih =>
    have hshift : whole * 10 ^ (places + 1 + 1) = whole * 10 ^ (places + 1) * 10 := by
      rw [Nat.pow_succ 10 (places + 1), Nat.mul_assoc]
    have hlt : fraction / 10 < 10 ^ (places + 1) := by
      rw [Nat.pow_succ] at h
      omega
    rw [numeral, numeral, ← List.append_assoc, ih hlt, hshift]
    rw [show (whole * 10 ^ (places + 1) * 10 + fraction) / 10 =
        whole * 10 ^ (places + 1) + fraction / 10 by omega,
      show (whole * 10 ^ (places + 1) * 10 + fraction) % 10 = fraction % 10 by omega]

theorem exists_numeral_add (places more n : Nat) :
    ∃ tail, numeral (places + more) n = numeral places (n / 10 ^ more) ++ tail ∧
      tail.length = more := by
  induction more generalizing n with
  | zero => exact ⟨[], by simp, rfl⟩
  | succ more ih =>
    obtain ⟨tail, htail, hlength⟩ := ih (n / 10)
    refine ⟨tail ++ [(n % 10).digitChar], ?_, by rw [List.length_append, hlength]; rfl⟩
    rw [← Nat.add_assoc, numeral, htail, List.append_assoc, Nat.div_div_eq_div_mul, Nat.pow_succ',
      Nat.mul_comm]

/-! ### One more -/

theorem ofNat_toNat_digitChar_add_one :
    ∀ d < 9, Char.ofNat (d.digitChar.toNat + 1) = (d + 1).digitChar := by
  decide

/-- A digit is raised in its place, or the digits in front of it carry. -/
theorem reverse_oneMore_concat {row : Nat → List Char} {n : Nat}
    (hcarry : (oneMore (row (n / 10)).reverse).reverse = row (n / 10 + 1)) :
    (oneMore (row (n / 10) ++ [(n % 10).digitChar]).reverse).reverse =
      row ((n + 1) / 10) ++ [((n + 1) % 10).digitChar] := by
  rw [List.reverse_append, List.reverse_singleton, List.singleton_append, oneMore]
  by_cases hnine : n % 10 = 9
  · rw [if_pos (Nat.digitChar_eq_nine.2 hnine), List.reverse_cons, hcarry,
      show (n + 1) / 10 = n / 10 + 1 by omega, show (n + 1) % 10 = 0 by omega]
    rfl
  · rw [if_neg (mt Nat.digitChar_eq_nine.1 hnine), List.reverse_cons, List.reverse_reverse,
      ofNat_toNat_digitChar_add_one _ (by omega), show (n + 1) / 10 = n / 10 by omega,
      show (n + 1) % 10 = n % 10 + 1 by omega]

theorem oneMore_toDigits (n : Nat) :
    (oneMore (Nat.toDigits 10 n).reverse).reverse = Nat.toDigits 10 (n + 1) := by
  induction n using Nat.strongRecOn with
  | _ n ih =>
    by_cases hlt : n < 10
    · rw [Nat.toDigits_of_lt_base hlt]
      by_cases hnine : n = 9
      · rw [hnine]
        rfl
      · rw [Nat.toDigits_of_lt_base (show n + 1 < 10 by omega), List.reverse_singleton, oneMore,
          if_neg (mt Nat.digitChar_eq_nine.1 hnine), ofNat_toNat_digitChar_add_one n (by omega)]
        rfl
    · rw [Nat.toDigits_of_base_le (by decide) (Nat.not_lt.1 hlt),
        reverse_oneMore_concat (ih (n / 10) (by omega)), ← Nat.toDigits_of_base_le (by decide) (by omega)]

theorem oneMore_numeral (places n : Nat) :
    (oneMore (numeral places n).reverse).reverse = numeral places (n + 1) := by
  induction places generalizing n with
  | zero => exact oneMore_toDigits n
  | succ places ih => rw [numeral, reverse_oneMore_concat (ih (n / 10)), ← numeral]

/-! ### The exact expansion -/

theorem length_numeral_of_lt {places n : Nat} (h : n < 10 ^ (places + 1)) :
    (numeral places n).length = places + 1 := by
  induction places generalizing n with
  | zero =>
    rw [Nat.zero_add, Nat.pow_one] at h
    rw [numeral, Nat.toDigits_of_lt_base h]
    rfl
  | succ places ih =>
    rw [Nat.pow_succ] at h
    rw [numeral, List.length_append, ih (by omega)]
    rfl

/-- Behind a whole number stand as many digits of a fraction as are kept. -/
theorem toDigits_append_take {whole fraction places kept : Nat} (h : fraction < 10 ^ (places + 1))
    (hkept : kept ≤ places + 1) :
    Nat.toDigits 10 whole ++ (numeral places fraction).take kept =
      numeral kept ((whole * 10 ^ (places + 1) + fraction) / 10 ^ (places + 1 - kept)) := by
  obtain ⟨tail, htail, hlength⟩ := exists_numeral_add kept (places + 1 - kept)
    (whole * 10 ^ (places + 1) + fraction)
  rw [Nat.add_sub_cancel' hkept, ← toDigits_append_numeral h,
    ← List.take_append_drop kept (numeral places fraction), ← List.append_assoc] at htail
  refine (List.append_inj' htail ?_).1
  rw [List.length_drop, length_numeral_of_lt h, hlength]

namespace Exact

variable (e : Exact)

theorem unitsPerOne_dvd : unitsPerOne ∣ 10 ^ exactPlaces := by
  unfold unitsPerOne exactPlaces
  generalize 1074 = exponent
  exact ⟨5 ^ exponent, Nat.mul_pow 2 5 exponent⟩

/-- The fraction of the expansion with `places + 1` places. -/
def fractionUnits (places : Nat) : Nat := e.units % unitsPerOne * 10 ^ (places + 1) / unitsPerOne

theorem fractionUnits_lt (places : Nat) : e.fractionUnits places < 10 ^ (places + 1) := by
  refine Nat.div_lt_of_lt_mul ?_
  exact (Nat.mul_lt_mul_right (Nat.pow_pos (by decide))).2 (Nat.mod_lt _ unitsPerOne_pos)

theorem expansion_eq (places : Nat) : e.expansion (places + 1) =
    Nat.toDigits 10 e.whole ++ '.' :: numeral places (e.fractionUnits places) := by
  rw [expansion, ← fractionUnits, replicate_append_toDigits]

/-- The expansion has the magnitude in units of its last place. -/
theorem whole_mul_add_fractionUnits (places : Nat) :
    e.whole * 10 ^ (places + 1) + e.fractionUnits places =
      e.units * 10 ^ (places + 1) / unitsPerOne := by
  have hunits : e.units * 10 ^ (places + 1) =
      e.units % unitsPerOne * 10 ^ (places + 1) + e.whole * 10 ^ (places + 1) * unitsPerOne := by
    calc
      e.units * 10 ^ (places + 1)
        = (e.units % unitsPerOne + unitsPerOne * (e.units / unitsPerOne)) * 10 ^ (places + 1) := by
          rw [Nat.mod_add_div]
      _ = _ := by rw [Nat.add_mul, whole, Nat.mul_comm unitsPerOne, Nat.mul_right_comm]
  rw [hunits, Nat.add_mul_div_right _ _ unitsPerOne_pos, fractionUnits, Nat.add_comm]

theorem takeWhile_expansion (places : Nat) :
    (e.expansion (places + 1)).takeWhile (· != '.') = Nat.toDigits 10 e.whole ∧
      ((e.expansion (places + 1)).dropWhile (· != '.')).tail =
        numeral places (e.fractionUnits places) := by
  have hdigits : ∀ c ∈ Nat.toDigits 10 e.whole, (c != '.') = true := by
    intro c hc
    rw [bne_iff_ne]
    rintro rfl
    exact absurd (Nat.isDigit_of_mem_toDigits (by decide) (by decide) hc) (by decide)
  rw [expansion_eq, List.takeWhile_append_of_pos hdigits, List.dropWhile_append_of_pos hdigits]
  simp

/-- What is kept of the expansion are the whole units of the last place that is wanted. -/
theorem kept_eq {places kept : Nat} (h : kept ≤ places + 1) :
    Nat.toDigits 10 e.whole ++ (numeral places (e.fractionUnits places)).take kept =
      numeral kept (e.units * 10 ^ kept / unitsPerOne) := by
  have hpow : (10 : Nat) ^ (places + 1) = 10 ^ kept * 10 ^ (places + 1 - kept) := by
    rw [← Nat.pow_add, Nat.add_sub_cancel' h]
  rw [toDigits_append_take (e.fractionUnits_lt places) h, whole_mul_add_fractionUnits, hpow,
    Nat.div_div_eq_div_mul, ← Nat.mul_assoc, Nat.mul_div_mul_right _ _ (Nat.pow_pos (by decide))]

/-- The digit behind those that are kept. -/
theorem next_eq {places kept : Nat} (h : kept ≤ places) :
    (numeral places (e.fractionUnits places))[kept]? =
      some (e.units * 10 ^ (kept + 1) / unitsPerOne % 10).digitChar := by
  have hmore := e.kept_eq (Nat.succ_le_succ h)
  rw [List.take_add_one, ← List.append_assoc, e.kept_eq (Nat.le_succ_of_le h), numeral] at hmore
  have hlt : kept < (numeral places (e.fractionUnits places)).length :=
    Nat.lt_of_le_of_lt h (lt_length_numeral _ _)
  rw [List.getElem?_eq_getElem hlt] at hmore ⊢
  exact congrArg List.head? (List.append_inj' hmore rfl).2

/-- Rounding a half away from zero looks at the next digit only. -/
theorem toPlaces_eq (places : Nat) : e.toPlaces places =
    e.units * 10 ^ places / unitsPerOne +
      if 5 ≤ e.units * 10 ^ (places + 1) / unitsPerOne % 10 then 1 else 0 := by
  have hpos := unitsPerOne_pos
  have hshift : e.units * 10 ^ (places + 1) = e.units * 10 ^ places * 10 := by
    rw [Nat.pow_succ, Nat.mul_assoc]
  rw [toPlaces, hshift, Nat.mul_assoc 2, Nat.pow_eq]
  generalize e.units * 10 ^ places = x
  generalize unitsPerOne = u at hpos
  have hx := Nat.div_add_mod x u
  have hr := Nat.mod_lt x hpos
  generalize x / u = q at hx ⊢
  generalize x % u = r at hx hr
  have hnext : x * 10 / u % 10 = r * 10 / u := by
    have hsplit : x * 10 = r * 10 + u * (q * 10) := by
      rw [← hx, Nat.add_mul, Nat.mul_assoc, Nat.add_comm]
    have hlt : r * 10 / u < 10 := Nat.div_lt_of_lt_mul (by omega)
    rw [hsplit, Nat.add_mul_div_left _ _ hpos, Nat.add_mul_mod_self_right, Nat.mod_eq_of_lt hlt]
  have hfive : 5 ≤ r * 10 / u ↔ u ≤ 2 * r := by
    rw [Nat.le_div_iff_mul_le hpos]
    omega
  have hround : (2 * x + u) / (2 * u) = q + (2 * r + u) / (2 * u) := by
    rw [show 2 * x + u = 2 * r + u + 2 * u * q by rw [← hx, Nat.mul_add, Nat.mul_assoc]; omega,
      Nat.add_mul_div_left _ _ (by omega), Nat.add_comm]
  rw [hnext, hround]
  by_cases hle : u ≤ 2 * r
  · have hone : (2 * r + u) / (2 * u) = 1 := Nat.div_eq_of_lt_le (by omega) (by omega)
    rw [if_pos (hfive.2 hle), hone]
  · have hzero : (2 * r + u) / (2 * u) = 0 := Nat.div_eq_of_lt (by omega)
    rw [if_neg (mt hfive.1 hle), hzero]

/-- From `exactPlaces` on there is nothing to round. -/
theorem toPlaces_add (more : Nat) :
    e.toPlaces (exactPlaces + more) = e.toPlaces exactPlaces * 10 ^ more := by
  obtain ⟨c, hc⟩ := unitsPerOne_dvd
  have hpos := unitsPerOne_pos
  have hwhole (n : Nat) : (2 * (n * unitsPerOne) + unitsPerOne) / (2 * unitsPerOne) = n := by
    rw [Nat.mul_left_comm, Nat.add_comm, Nat.mul_comm n, Nat.add_mul_div_left _ _ (by omega),
      Nat.div_eq_of_lt (by omega), Nat.zero_add]
  have hplaces (more : Nat) : e.toPlaces (exactPlaces + more) = e.units * c * 10 ^ more := by
    have hunits : e.units * 10 ^ (exactPlaces + more) = e.units * c * 10 ^ more * unitsPerOne := by
      rw [Nat.pow_add, hc, Nat.mul_comm unitsPerOne, Nat.mul_right_comm c, ← Nat.mul_assoc,
        ← Nat.mul_assoc]
    rw [toPlaces, Nat.mul_assoc, Nat.pow_eq, hunits, hwhole]
  have hexact : e.toPlaces exactPlaces = e.units * c := (hplaces 0).trans (Nat.mul_one _)
  rw [hplaces more, hexact]

/-- The digits that the magnitude is rounded to: beyond the exact expansion they are zeros. -/
theorem numeral_toPlaces (places : Nat) : numeral places (e.toPlaces places) =
    numeral (min places exactPlaces) (e.toPlaces (min places exactPlaces)) ++
      List.replicate (places - min places exactPlaces) '0' := by
  by_cases hle : places ≤ exactPlaces
  · rw [Nat.min_eq_left hle, Nat.sub_self, List.replicate_zero, List.append_nil]
  · obtain ⟨more, rfl⟩ := Nat.exists_eq_add_of_le (Nat.le_of_not_le hle)
    rw [Nat.min_eq_right (Nat.le_add_right _ _), toPlaces_add, numeral_append_zeros,
      Nat.add_sub_cancel_left]

/-- The point stands before the last places of the numeral. -/
theorem fixedDigits_eq (places : Nat) : e.fixedDigits places =
    let digits := numeral places (e.toPlaces places)
    let whole := digits.take (digits.length - places)
    if 0 < places then whole ++ '.' :: digits.drop (digits.length - places) else whole := by
  have hle : min places exactPlaces ≤ places := Nat.min_le_left _ _
  have hlt := lt_length_numeral (min places exactPlaces) (e.toPlaces (min places exactPlaces))
  rw [fixedDigits, replicate_append_toDigits, e.numeral_toPlaces places]
  generalize min places exactPlaces = kept at hle hlt
  generalize numeral kept (e.toPlaces kept) = digits at hlt
  dsimp only
  rw [List.length_append, List.length_replicate,
    show digits.length + (places - kept) - places = digits.length - kept by omega,
    List.take_append_of_le_length (Nat.sub_le _ _), List.drop_append_of_le_length (Nat.sub_le _ _)]
  by_cases hzero : places = 0
  · rw [if_pos hzero, if_neg (by omega)]
  · rw [if_neg hzero, if_pos (by omega)]

end Exact

theorem five_le_digitChar_iff : ∀ d < 10, '5' ≤ Nat.digitChar d ↔ 5 ≤ d := by
  decide

/-- There are always more digits than places behind the point, and they are the rounded ones. -/
theorem guarded_fixedDigits (e : Exact) (places : Nat) :
    Guarded.fixedDigits e places = .ok (e.fixedDigits places) := by
  obtain ⟨last, hlast⟩ : ∃ last, max exactPlaces (places + 1) = last + 1 :=
    Nat.exists_eq_add_one.2 (by omega)
  have hplaces : places ≤ last := by omega
  obtain ⟨hwhole, hfraction⟩ := e.takeWhile_expansion last
  have hdigit : e.units * 10 ^ (places + 1) / unitsPerOne % 10 < 10 := Nat.mod_lt _ (by decide)
  have hkept : (if (some (e.units * 10 ^ (places + 1) / unitsPerOne % 10).digitChar).any
        (fun c => decide ('5' ≤ c)) = true
      then (oneMore (numeral places (e.units * 10 ^ places / unitsPerOne)).reverse).reverse
      else numeral places (e.units * 10 ^ places / unitsPerOne)) =
      numeral places (e.toPlaces places) := by
    rw [e.toPlaces_eq, Option.any_some]
    by_cases hfive : 5 ≤ e.units * 10 ^ (places + 1) / unitsPerOne % 10
    · rw [if_pos (decide_eq_true ((five_le_digitChar_iff _ hdigit).2 hfive)), if_pos hfive]
      exact oneMore_numeral places _
    · rw [if_neg (mt of_decide_eq_true (mt (five_le_digitChar_iff _ hdigit).1 hfive)), if_neg hfive]
      rfl
  rw [Guarded.fixedDigits, hlast]
  dsimp only
  rw [hwhole, hfraction, e.kept_eq (Nat.le_succ_of_le hplaces), e.next_eq hplaces, hkept,
    if_pos (Nat.le_of_lt (lt_length_numeral _ _)), e.fixedDigits_eq]

theorem safe_fixedText (x : Float) (places : Nat) :
    Safe (Guarded.fixedText x places) (· = fixedText x places) := by
  unfold Guarded.fixedText fixedText
  generalize fixedLimit = limit
  cases Exact.ofFloat? x with
  | none => exact safe_ok rfl
  | some e =>
    dsimp only
    by_cases hlarge : limit ≤ e.units
    · rw [if_pos hlarge, if_pos hlarge]
      exact safe_ok rfl
    · rw [if_neg hlarge, if_neg hlarge]
      by_cases hwide : 65535 ≤ places
      · rw [dif_pos hwide]
        trivial
      · rw [dif_neg hwide, guarded_fixedDigits]
        exact safe_ok rfl

theorem dropTrailingZeros_prefix (text : String) :
    (dropTrailingZeros text).toList <+: text.toList := by
  have hsuffix : (text.toList.reverse.dropWhile (· == '0')).dropWhile (· == '.') <:+ text.toList.reverse :=
    (List.dropWhile_suffix _).trans (List.dropWhile_suffix _)
  have hprefix := List.reverse_prefix.2 hsuffix
  rwa [List.reverse_reverse, ← String.toList_ofList (l := List.reverse _)] at hprefix

theorem safe_applyFormat (format : NumberFormat) (x : Float) :
    Safe (Guarded.applyFormat format x) (· = format.apply x) := by
  unfold Guarded.applyFormat NumberFormat.apply
  cases format.places with
  | none => exact safe_ok rfl
  | some places =>
    dsimp only
    split
    next => exact safe_ok rfl
    next =>
      refine (safe_fixedText x places.toNat).bind fun text htext => ?_
      subst htext
      split
      next =>
        obtain ⟨rest, hrest⟩ := dropTrailingZeros_prefix (fixedText x places.toNat)
        have hslice := sliceTo?_append (dropTrailingZeros (fixedText x places.toNat)).toList rest
        rw [hrest, String.utf8Len_toList] at hslice
        rw [hslice]
        exact safe_ok (String.ofList_toList ..)
      next => exact safe_ok rfl

end PatternText
