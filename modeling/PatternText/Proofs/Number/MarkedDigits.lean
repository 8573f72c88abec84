import PatternText.Proofs.Guarded.Session
import PatternText.Proofs.Number.WordFloat

/-! Numbers behind the mark of a base. Digits in one of three bases, with blanks around the whole number,
count as the number nearest to what they spell if that fits a word, and as zero from there on; whatever
else follows a mark counts as zero. -/

namespace PatternText

/-! ### Blanks -/

theorem dropWhile_append_of_head {p : Char → Bool} {front core : List Char}
    (hfront : ∀ c ∈ front, p c = true) (hhead : ∀ c ∈ core.head?, p c = false) :
    (front ++ core).dropWhile p = core := by
  rw [List.dropWhile_append_of_pos hfront]
  cases core with
  | nil => rfl
  | cons c core => exact List.dropWhile_cons_of_neg (Bool.eq_false_iff.1 (hhead c rfl))

/-- Exactly the blanks at the two ends are dropped. -/
theorem trimBlank_append {front core back : List Char} (hfront : ∀ c ∈ front, isBlank c = true)
    (hback : ∀ c ∈ back, isBlank c = true) (hne : core ≠ [])
    (hhead : ∀ c ∈ core.head?, isBlank c = false) (hlast : ∀ c ∈ core.getLast?, isBlank c = false) :
    trimBlank (front ++ core ++ back) = core := by
  have hstart : ∀ c ∈ (core ++ back).head?, isBlank c = false := by
    rw [List.head?_append_of_ne_nil _ hne]
    exact hhead
  have hreverse : ∀ c ∈ back.reverse, isBlank c = true := fun c hc => hback c (List.mem_reverse.1 hc)
  have hend : ∀ c ∈ core.reverse.head?, isBlank c = false := by
    rw [List.head?_reverse]
    exact hlast
  rw [trimBlank, List.append_assoc, dropWhile_append_of_head hfront hstart, List.reverse_append,
    dropWhile_append_of_head hreverse hend, List.reverse_reverse]

/-! ### Digits -/

/-- The digits up to base sixteen, each at the place of its value. -/
def digitRow : List Char :=
  ['0', '1', '2', '3', '4', '5', '6', '7', '8', '9', 'a', 'b', 'c', 'd', 'e', 'f']

/-- A digit of the base, a letter of either case. -/
def IsDigitOf (base : Nat) (c : Char) : Prop := c.toLower ∈ digitRow.take base

instance (base : Nat) (c : Char) : Decidable (IsDigitOf base c) :=
  inferInstanceAs (Decidable (c.toLower ∈ digitRow.take base))

/-- The number that digits spell, the first one counting most. -/
def spelled (base : Nat) (cs : List Char) : Nat :=
  Nat.ofDigits base (cs.reverse.map fun c => digitRow.idxOf c.toLower)

theorem spelled_append_singleton (base : Nat) (cs : List Char) (c : Char) :
    spelled base (cs ++ [c]) = digitRow.idxOf c.toLower + base * spelled base cs := by
  rw [spelled, spelled, List.reverse_append, List.reverse_singleton, List.singleton_append, List.map_cons,
    Nat.ofDigits_cons]

/-- The characters below 128 can be gone through. -/
theorem hexDigitValue?_ascii : ∀ n < 128, hexDigitValue? (Char.ofNat n) =
    if (Char.ofNat n).toLower ∈ digitRow then some (digitRow.idxOf (Char.ofNat n).toLower) else none := by
  decide +kernel

theorem hexDigitValue?_eq (c : Char) : hexDigitValue? c =
    if c.toLower ∈ digitRow then some (digitRow.idxOf c.toLower) else none := by
  by_cases hascii : c.toNat < 128
  · have h := hexDigitValue?_ascii c.toNat hascii
    rwa [Char.ofNat_toNat] at h
  · have hout (a d : Char) (hd : d.toNat < 128) : ¬(a ≤ c ∧ c ≤ d) := fun h =>
      hascii (Nat.lt_of_le_of_lt (show c.toNat ≤ d.toNat from h.2) hd)
    have hlower : c.toLower = c := dif_neg (hout 'A' 'Z' (by decide))
    have hmem : c.toLower ∉ digitRow := by
      have hall : digitRow.all (· ≤ 'f') = true := by decide
      rw [hlower]
      exact fun h => hout c 'f' (by decide)
        ⟨Char.le_refl c, of_decide_eq_true (List.all_eq_true.1 hall c h)⟩
    have hdigit : ¬c.isDigit = true := by
      rw [Char.isDigit, Bool.and_eq_true, decide_eq_true_eq, decide_eq_true_eq]
      exact hout '0' '9' (by decide)
    rw [if_neg hmem, hexDigitValue?, if_neg hdigit]
    simp only [Bool.and_eq_true, decide_eq_true_eq]
    rw [if_neg (hout 'a' 'f' (by decide)), if_neg (hout 'A' 'F' (by decide))]

theorem digitValue?_eq (base : Nat) (c : Char) : digitValue? base c =
    if IsDigitOf base c then some (digitRow.idxOf c.toLower) else none := by
  rw [digitValue?, hexDigitValue?_eq]
  by_cases hmem : c.toLower ∈ digitRow
  · have hdigit : IsDigitOf base c ↔ digitRow.idxOf c.toLower < base := List.mem_take_iff_idxOf_lt hmem
    rw [if_pos hmem, Option.filter_some]
    simp only [hdigit, decide_eq_true_eq]
  · have hdigit : ¬IsDigitOf base c := fun h => hmem (List.mem_of_mem_take h)
    rw [if_neg hmem, if_neg hdigit]
    rfl

/-- Digits are read as what they spell. -/
theorem readDigits?_of_digits {base : Nat} {cs : List Char} (hne : cs ≠ [])
    (h : ∀ c ∈ cs, IsDigitOf base c) : readDigits? base cs = some (spelled base cs) := by
  have hfold : cs.foldlM (fun value c => (digitValue? base c).map (base * value + ·)) 0 =
      some (spelled base cs) := by
    clear hne
    induction cs using List.reverseRecOn with
    | nil => rfl
    | append_singleton cs c ih =>
      obtain ⟨hcs, hc⟩ := List.forall_mem_append.1 h
      have hvalue := digitValue?_eq base c
      rw [if_pos (hc c (List.mem_singleton_self c))] at hvalue
      rw [List.foldlM_append, ih hcs, spelled_append_singleton, Nat.add_comm]
      simp only [Option.bind_eq_bind, Option.bind_some, List.foldlM_cons, List.foldlM_nil, hvalue,
        Option.map_some]
      rfl
  rw [readDigits?, hfold, if_neg]
  simpa using hne

/-- No digits are not read, and neither is a row with anything else in it. -/
theorem readDigits?_eq_none {base : Nat} {cs : List Char} (h : cs = [] ∨ ∃ c ∈ cs, ¬IsDigitOf base c) :
    readDigits? base cs = none := by
  obtain rfl | ⟨c, hc, hno⟩ := h
  · rfl
  · obtain ⟨before, after, rfl⟩ := List.append_of_mem hc
    have hvalue := digitValue?_eq base c
    rw [if_neg hno] at hvalue
    have hstop (acc : Nat) :
        (c :: after).foldlM (fun value c => (digitValue? base c).map (base * value + ·)) acc = none := by
      rw [List.foldlM_cons, hvalue]
      rfl
    rw [readDigits?, List.foldlM_append]
    cases before.foldlM (fun value c => (digitValue? base c).map (base * value + ·)) 0 with
    | none => simp
    | some acc => simp [hstop]

/-! ### Source values -/

/-- The marks in front of a number, each with its base. -/
def baseMarks : List (Char × Nat) := [('x', 16), ('X', 16), ('o', 8), ('O', 8), ('b', 2), ('B', 2)]

theorem splitBasePrefix_of_mem {mark : Char} {base : Nat} (h : (mark, base) ∈ baseMarks)
    (rest : List Char) : splitBasePrefix ('0' :: mark :: rest) = some (base, rest) := by
  have hmarked : ∀ marked ∈ baseMarks, Guarded.markedBase? ['0', marked.1] = some marked.2 := by decide
  rw [splitBasePrefix_zero_cons, hmarked _ h]
  rfl

section Marked

variable {mark : Char} {base : Nat} (hmark : (mark, base) ∈ baseMarks) {front rest back : List Char}
include hmark

theorem isBlank_getLast?_of_mark (hend : ∀ c ∈ rest.getLast?, isBlank c = false) :
    ∀ c ∈ ('0' :: mark :: rest).getLast?, isBlank c = false := by
  cases rest with
  | nil =>
    have hmarks : ∀ marked ∈ baseMarks, isBlank marked.1 = false := by decide
    intro c hc
    rw [List.getLast?_cons_cons, List.getLast?_singleton, Option.mem_some_iff] at hc
    rw [← hc]
    exact hmarks (mark, base) hmark
  | cons c rest =>
    rw [List.getLast?_cons_cons, List.getLast?_cons_cons]
    exact hend

/-- Behind a mark everything up to the blanks at the end is read in the base. -/
theorem sourceValue_of_mark (hfront : ∀ c ∈ front, isBlank c = true)
    (hback : ∀ c ∈ back, isBlank c = true) (hend : ∀ c ∈ rest.getLast?, isBlank c = false) :
    sourceValue (String.ofList (front ++ '0' :: mark :: rest ++ back)) =
      (readDigits? base rest).elim 0 fun value =>
        if value < UInt64.size then (UInt64.ofNat value).toFloat else 0 := by
  have hzero : ∀ c ∈ ('0' :: mark :: rest).head?, isBlank c = false := by
    intro c hc
    rw [List.head?_cons, Option.mem_some_iff] at hc
    rw [← hc]
    decide
  have htrim := trimBlank_append hfront hback (List.cons_ne_nil '0' (mark :: rest)) hzero
    (isBlank_getLast?_of_mark hmark hend)
  rw [sourceValue, String.toList_ofList, htrim, splitBasePrefix_of_mem hmark]
  dsimp only
  cases readDigits? base rest with
  | some value => rfl
  | none => rfl

/-- Digits behind a mark count as the number nearest to what they spell, a tie going to the even one, as
long as that fits a word. A greater number counts as zero, and so does a mark with no digits, or with
anything but digits of its base, behind it. -/
theorem sourceValue_marked (hfront : ∀ c ∈ front, isBlank c = true)
    (hback : ∀ c ∈ back, isBlank c = true) (hend : ∀ c ∈ rest.getLast?, isBlank c = false) :
    let x := sourceValue (String.ofList (front ++ '0' :: mark :: rest ++ back))
    (rest ≠ [] → (∀ c ∈ rest, IsDigitOf base c) →
      (spelled base rest < 2 ^ 64 → NearestEven x (spelled base rest)) ∧
      (2 ^ 64 ≤ spelled base rest → x = 0) ∧
      ((x == 0) = true ↔ spelled base rest = 0 ∨ 2 ^ 64 ≤ spelled base rest)) ∧
    (rest = [] ∨ (∃ c ∈ rest, ¬IsDigitOf base c) → x = 0) := by
  intro x
  have hx : x = _ := sourceValue_of_mark hmark hfront hback hend
  refine ⟨fun hne hdigits => ?_, fun h => by rw [hx, readDigits?_eq_none h]; rfl⟩
  have hsize : UInt64.size = 2 ^ 64 := rfl
  rw [readDigits?_of_digits hne hdigits, Option.elim_some, hsize] at hx
  have hzero : ((0 : Float) == 0) = true := by decide +kernel
  by_cases hlt : spelled base rest < 2 ^ 64
  · rw [if_pos hlt] at hx
    have hnearest := nearestEven_toFloat (UInt64.ofNat (spelled base rest))
    rw [UInt64.toNat_ofNat_of_lt' hlt, ← hx] at hnearest
    refine ⟨fun _ => hnearest, fun hle => absurd hlt (Nat.not_lt.2 hle), fun h => .inl ?_, ?_⟩
    · by_contra hpos
      rw [hnearest.beq_zero (Nat.pos_of_ne_zero hpos)] at h
      cases h
    · rintro (h | h)
      · rw [hx, h]
        decide +kernel
      · exact absurd hlt (Nat.not_lt.2 h)
  · rw [if_neg hlt] at hx
    rw [hx]
    exact ⟨fun h => absurd h hlt, fun _ => rfl, fun _ => .inr (Nat.not_lt.1 hlt), fun _ => hzero⟩

end Marked

/-- Among blanks, `2 ^ 53 + 1` in base sixteen, which lies in the middle between two numbers. -/
theorem middleOfTwo_marked :
    let rest := "20000000000001".toList
    let x := sourceValue " 0X20000000000001\u3000 "
    ('X', 16) ∈ baseMarks ∧ (∀ c ∈ [' '], isBlank c = true) ∧ (∀ c ∈ ['\u3000', ' '], isBlank c = true) ∧
      (∀ c ∈ rest.getLast?, isBlank c = false) ∧ rest ≠ [] ∧ (∀ c ∈ rest, IsDigitOf 16 c) ∧
      spelled 16 rest = 2 ^ 53 + 1 ∧ NearestEven x (spelled 16 rest) ∧ floatValue? x = some (2 ^ 53) := by
  intro rest x
  have hmark : ('X', 16) ∈ baseMarks := by decide
  have hfront : ∀ c ∈ [' '], isBlank c = true := List.all_eq_true.1 (by decide)
  have hback : ∀ c ∈ ['\u3000', ' '], isBlank c = true := List.all_eq_true.1 (by decide)
  have hend : ∀ c ∈ rest.getLast?, isBlank c = false := by
    intro c hc
    obtain rfl : '1' = c := Option.some.inj hc
    decide
  have hne : rest ≠ [] := by decide
  have hdigits : ∀ c ∈ rest, IsDigitOf 16 c := by
    have hall : rest.all (IsDigitOf 16 ·) = true := by decide +kernel
    exact fun c hc => of_decide_eq_true (List.all_eq_true.1 hall c hc)
  have hspelled : spelled 16 rest = 2 ^ 53 + 1 := by decide +kernel
  have hmarked := ((sourceValue_marked hmark hfront hback hend).1 hne hdigits).1 (by
    rw [hspelled]
    decide)
  have htext : String.ofList ([' '] ++ '0' :: 'X' :: rest ++ ['\u3000', ' ']) =
      " 0X20000000000001\u3000 " := by decide +kernel
  rw [htext] at hmarked
  exact ⟨hmark, hfront, hback, hend, hne, hdigits, hspelled, hmarked, by decide +kernel⟩

/-- Sixteen zeros behind a one are too much for a word, though the same number in base ten is not zero. -/
theorem seventeenDigits_not_nearest :
    let rest := "10000000000000000".toList
    rest ≠ [] ∧ (∀ c ∈ rest, IsDigitOf 16 c) ∧ spelled 16 rest = 2 ^ 64 ∧ 2 ^ 64 < 2 ^ 1023 ∧
      sourceValue "0x10000000000000000" = 0 ∧
      ¬NearestEven (sourceValue "0x10000000000000000") (spelled 16 rest) ∧
      (sourceValue "18446744073709551616" == 0) = false := by
  intro rest
  have hdigits : ∀ c ∈ rest, IsDigitOf 16 c := by
    have hall : rest.all (IsDigitOf 16 ·) = true := by decide +kernel
    exact fun c hc => of_decide_eq_true (List.all_eq_true.1 hall c hc)
  have hspelled : spelled 16 rest = 2 ^ 64 := by decide +kernel
  have hpow (k : Nat) (hk : 64 < k) : 2 ^ 64 < 2 ^ k := Nat.pow_lt_pow_right (by decide) hk
  have hzero : (sourceValue "0x10000000000000000" == 0) = true := by decide +kernel
  refine ⟨by decide, hdigits, hspelled, hpow 1023 (by decide), by decide +kernel, fun hnearest => ?_,
    by decide +kernel⟩
  rw [hnearest.beq_zero (by rw [hspelled]; decide)] at hzero
  cases hzero

end PatternText
