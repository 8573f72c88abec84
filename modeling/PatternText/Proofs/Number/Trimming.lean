import PatternText.Proofs.Number.FixedPoint

/-! Decimal texts: a sign or none, a whole part, and a fraction behind a point or none. Trimming takes the
zeros off the end of the fraction, and the point when nothing is left behind it. The text then denotes the
same number. Where there is a fraction, dropping zeros and then a point from the end of the whole text does
just that. -/

namespace PatternText

/-- A whole part, and a fraction behind a point where there is one. -/
def pointed (whole fraction : List Char) : List Char :=
  whole ++ if fraction = [] then [] else '.' :: fraction

def wholePart (text : List Char) : List Char :=
  text.takeWhile (· != '.')

def fractionPart (text : List Char) : List Char :=
  (text.dropWhile (· != '.')).tail

/-- The text without the zeros at the end of its fraction, and without the point when nothing is left of
the fraction. -/
def trimFraction (text : List Char) : List Char :=
  pointed (wholePart text) ((fractionPart text).rdropWhile (· == '0'))

/-- The number that a decimal text without a sign denotes. -/
def magnitudeValue (text : List Char) : ℚ :=
  Nat.ofDigitChars 10 (wholePart text ++ fractionPart text) 0 / 10 ^ (fractionPart text).length

/-- The number that a decimal text denotes. -/
def decimalValue : List Char → ℚ
  | '-' :: magnitude => -magnitudeValue magnitude
  | magnitude => magnitudeValue magnitude

section Parts

variable {whole : List Char} (hwhole : '.' ∉ whole) (fraction : List Char)
include hwhole

theorem ne_point_of_mem : ∀ c ∈ whole, (c != '.') = true := by
  rintro c hc
  rw [bne_iff_ne]
  rintro rfl
  exact hwhole hc

theorem wholePart_pointed : wholePart (pointed whole fraction) = whole := by
  rw [wholePart, pointed, List.takeWhile_append_of_pos (ne_point_of_mem hwhole)]
  cases fraction with
  | nil => exact List.append_nil whole
  | cons c cs => exact List.append_nil whole

theorem fractionPart_pointed : fractionPart (pointed whole fraction) = fraction := by
  rw [fractionPart, pointed, List.dropWhile_append_of_pos (ne_point_of_mem hwhole)]
  cases fraction with
  | nil => rfl
  | cons c cs => rfl

theorem magnitudeValue_pointed : magnitudeValue (pointed whole fraction) =
    Nat.ofDigitChars 10 (whole ++ fraction) 0 / 10 ^ fraction.length := by
  rw [magnitudeValue, wholePart_pointed hwhole, fractionPart_pointed hwhole]

theorem trimFraction_pointed : trimFraction (pointed whole fraction) =
    pointed whole (fraction.rdropWhile (· == '0')) := by
  rw [trimFraction, wholePart_pointed hwhole, fractionPart_pointed hwhole]

end Parts

theorem point_notMem_wholePart (text : List Char) : '.' ∉ wholePart text :=
  fun h => absurd (List.mem_takeWhile_imp h) (by decide)

theorem trimFraction_of_notMem {text : List Char} (h : '.' ∉ text) : trimFraction text = text := by
  have hpointed := trimFraction_pointed h []
  rwa [pointed, if_pos rfl, List.append_nil, List.rdropWhile_nil, pointed, if_pos rfl,
    List.append_nil] at hpointed

/-- Zeros at the end of a fraction do not count. -/
theorem ofDigitChars_append_zeros (digits : List Char) (zeros : Nat) :
    Nat.ofDigitChars 10 (digits ++ List.replicate zeros '0') 0 =
      Nat.ofDigitChars 10 digits 0 * 10 ^ zeros := by
  induction zeros with
  | zero => rw [List.replicate_zero, List.append_nil, Nat.pow_zero, Nat.mul_one]
  | succ zeros ih =>
    rw [List.replicate_succ', ← List.append_assoc, Nat.ofDigitChars_append, ih, Nat.ofDigitChars_cons,
      Nat.ofDigitChars_nil, Nat.sub_self, Nat.pow_succ]
    ring

theorem magnitudeValue_trimFraction (text : List Char) :
    magnitudeValue (trimFraction text) = magnitudeValue text := by
  rw [trimFraction, magnitudeValue_pointed (point_notMem_wholePart text), magnitudeValue]
  generalize wholePart text = whole
  generalize fractionPart text = fraction
  obtain ⟨zeros, hzeros⟩ : ∃ zeros,
      fraction = fraction.rdropWhile (· == '0') ++ List.replicate zeros '0' := by
    have hzero : ∀ c ∈ fraction.rtakeWhile (· == '0'), c = '0' := by
      intro c hc
      simpa using List.mem_rtakeWhile_imp hc
    refine ⟨(fraction.rtakeWhile (· == '0')).length, ?_⟩
    rw [← List.eq_replicate_of_mem hzero, List.rdropWhile_append_rtakeWhile]
  generalize fraction.rdropWhile (· == '0') = kept at hzeros
  rw [hzeros, ← List.append_assoc, ofDigitChars_append_zeros, List.length_append,
    List.length_replicate, pow_add, Nat.cast_mul, Nat.cast_pow]
  exact (mul_div_mul_right _ _ (pow_ne_zero _ (by norm_num))).symm

theorem decimalValue_of_head_ne {text : List Char} (h : text.head? ≠ some '-') :
    decimalValue text = magnitudeValue text := by
  unfold decimalValue
  split
  next => exact absurd rfl h
  next => rfl

theorem trimFraction_cons {c : Char} (hc : c ≠ '.') (text : List Char) :
    trimFraction (c :: text) = c :: trimFraction text := by
  simp [trimFraction, pointed, wholePart, fractionPart, hc]

/-- Trimming a text leaves the number that it denotes. -/
theorem decimalValue_trimFraction (text : List Char) :
    decimalValue (trimFraction text) = decimalValue text := by
  cases text with
  | nil => rfl
  | cons c rest =>
    by_cases hminus : c = '-'
    · rw [hminus, trimFraction_cons (by decide)]
      exact congrArg (-·) (magnitudeValue_trimFraction rest)
    · have hhead : (trimFraction (c :: rest)).head? ≠ some '-' := by
        by_cases hpoint : c = '.'
        · rw [hpoint]
          show (pointed [] _).head? ≠ some '-'
          rw [pointed, List.nil_append]
          split <;> simp
        · rw [trimFraction_cons hpoint]
          exact fun h => hminus (Option.some.inj h)
      have hrest : (c :: rest).head? ≠ some '-' := fun h => hminus (Option.some.inj h)
      rw [decimalValue_of_head_ne hhead, magnitudeValue_trimFraction, decimalValue_of_head_ne hrest]

/-- Dropping zeros from the end of the whole text, and then the point, stays behind the point. -/
theorem dropTrailingZeros_pointed {whole fraction : List Char} (hwhole : '.' ∉ whole)
    (hfraction : '.' ∉ fraction) (hne : fraction ≠ []) :
    (dropTrailingZeros (String.ofList (pointed whole fraction))).toList =
      trimFraction (pointed whole fraction) := by
  have hpoint : (whole ++ ['.']).rdropWhile (· == '.') = whole := by
    rw [List.rdropWhile_concat_pos _ _ _ rfl, List.rdropWhile_eq_self_iff]
    intro h heq
    exact hwhole (eq_of_beq heq ▸ List.getLast_mem h)
  rw [trimFraction_pointed hwhole, pointed, if_neg hne, dropTrailingZeros, String.toList_ofList,
    String.toList_ofList, ← List.reverse_reverse (List.dropWhile (· == '0') _)]
  change ((whole ++ '.' :: fraction).rdropWhile (· == '0')).rdropWhile (· == '.') = _
  clear hne
  induction fraction using List.reverseRecOn with
  | nil =>
    rw [List.rdropWhile_concat_neg _ _ _ (by decide), hpoint, List.rdropWhile_nil, pointed, if_pos rfl,
      List.append_nil]
  | append_singleton fraction c ih =>
    rw [List.mem_append, not_or, List.mem_singleton] at hfraction
    rw [← List.cons_append, ← List.append_assoc, List.rdropWhile_concat, List.rdropWhile_concat]
    by_cases hc : c = '0'
    · simpa [hc] using ih hfraction.1
    · have hpoint : (c == '.') = false := beq_eq_false_iff_ne.2 fun h => hfraction.2 h.symm
      simp [hc, hpoint, pointed]

theorem point_notMem_toDigits (n : Nat) : '.' ∉ Nat.toDigits 10 n :=
  fun h => absurd (Nat.isDigit_of_mem_toDigits (by decide) (by decide) h) (by decide)

theorem head?_toDigits_ne (n : Nat) : (Nat.toDigits 10 n).head? ≠ some '-' := by
  intro h
  have hmem : '-' ∈ Nat.toDigits 10 n := List.mem_of_mem_head? h
  exact absurd (Nat.isDigit_of_mem_toDigits (by decide) (by decide) hmem) (by decide)

theorem magnitudeValue_toDigits (n : Nat) : magnitudeValue (Nat.toDigits 10 n) = n := by
  have hvalue := magnitudeValue_pointed (point_notMem_toDigits n) []
  simpa [pointed] using hvalue

end PatternText
