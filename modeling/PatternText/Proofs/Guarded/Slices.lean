import Mathlib.Data.String.Basic

/-! Parts of a text by the number of bytes before them. There is such a part only where its ends fall
between characters; the number of bytes that some characters take up is such a place, and the part is
then what lies before, between or behind. -/

namespace PatternText

open String (utf8Len)

/-- The text from a byte on, if a character begins there or the text ends. -/
def sliceFrom? : List Char → Nat → Option (List Char)
  | cs, 0 => some cs
  | [], _ + 1 => none
  | c :: cs, n + 1 => if c.utf8Size ≤ n + 1 then sliceFrom? cs (n + 1 - c.utf8Size) else none

/-- The text before a byte, if a character begins there or the text ends. -/
def sliceTo? : List Char → Nat → Option (List Char)
  | _, 0 => some []
  | [], _ + 1 => none
  | c :: cs, n + 1 =>
    if c.utf8Size ≤ n + 1 then (sliceTo? cs (n + 1 - c.utf8Size)).map (c :: ·) else none

/-- The text between two bytes. -/
def slice? (cs : List Char) (start stop : Nat) : Option (List Char) :=
  if start ≤ stop then (sliceFrom? cs start).bind (sliceTo? · (stop - start)) else none

theorem sliceFrom?_zero (cs : List Char) : sliceFrom? cs 0 = some cs := by
  cases cs <;> rfl

theorem sliceTo?_zero (cs : List Char) : sliceTo? cs 0 = some [] := by
  cases cs <;> rfl

theorem utf8Size_eq_add_one (c : Char) : ∃ n, c.utf8Size = n + 1 :=
  Nat.exists_eq_add_one.2 c.utf8Size_pos

theorem sliceFrom?_append (before rest : List Char) :
    sliceFrom? (before ++ rest) (utf8Len before) = some rest := by
  induction before with
  | nil => exact sliceFrom?_zero rest
  | cons c before ih =>
    obtain ⟨n, hn⟩ := utf8Size_eq_add_one c
    rw [List.cons_append, String.utf8Len_cons, hn, ← Nat.add_assoc, sliceFrom?, hn,
      if_pos (by omega), show utf8Len before + n + 1 - (n + 1) = utf8Len before by omega]
    exact ih

theorem sliceTo?_append (taken rest : List Char) :
    sliceTo? (taken ++ rest) (utf8Len taken) = some taken := by
  induction taken with
  | nil => exact sliceTo?_zero rest
  | cons c taken ih =>
    obtain ⟨n, hn⟩ := utf8Size_eq_add_one c
    rw [List.cons_append, String.utf8Len_cons, hn, ← Nat.add_assoc, sliceTo?, hn,
      if_pos (by omega), show utf8Len taken + n + 1 - (n + 1) = utf8Len taken by omega, ih]
    rfl

theorem slice?_append (before taken rest : List Char) :
    slice? (before ++ (taken ++ rest)) (utf8Len before) (utf8Len before + utf8Len taken) =
      some taken := by
  rw [slice?, if_pos (Nat.le_add_right _ _), sliceFrom?_append, Option.bind_some,
    Nat.add_sub_cancel_left, sliceTo?_append]

theorem exists_of_sliceFrom?_eq_some {cs rest : List Char} {n : Nat} (h : sliceFrom? cs n = some rest) :
    ∃ before, cs = before ++ rest ∧ n = utf8Len before := by
  induction cs generalizing n with
  | nil =>
    cases n with
    | zero =>
      cases h
      exact ⟨[], rfl, rfl⟩
    | succ n => cases h
  | cons c cs ih =>
    cases n with
    | zero =>
      cases h
      exact ⟨[], rfl, rfl⟩
    | succ n =>
      rw [sliceFrom?] at h
      split at h
      next hle =>
        obtain ⟨before, rfl, hn⟩ := ih h
        refine ⟨c :: before, rfl, ?_⟩
        rw [String.utf8Len_cons, ← hn]
        omega
      next => cases h

theorem exists_of_sliceTo?_eq_some {cs taken : List Char} {n : Nat} (h : sliceTo? cs n = some taken) :
    ∃ rest, cs = taken ++ rest ∧ n = utf8Len taken := by
  induction cs generalizing n taken with
  | nil =>
    cases n with
    | zero =>
      cases h
      exact ⟨[], rfl, rfl⟩
    | succ n => cases h
  | cons c cs ih =>
    cases n with
    | zero =>
      cases h
      exact ⟨c :: cs, rfl, rfl⟩
    | succ n =>
      rw [sliceTo?] at h
      split at h
      next hle =>
        obtain ⟨taken, htaken, rfl⟩ := Option.map_eq_some_iff.1 h
        obtain ⟨rest, rfl, hn⟩ := ih htaken
        refine ⟨rest, rfl, ?_⟩
        rw [String.utf8Len_cons, ← hn]
        omega
      next => cases h

/-- The places that have a part behind them are the boundaries of characters. -/
theorem isSome_sliceFrom?_iff (text : String) (n : Nat) :
    (sliceFrom? text.toList n).isSome = true ↔ String.Pos.Raw.IsValid text ⟨n⟩ := by
  rw [String.Pos.Raw.isValid_iff_exists_append, Option.isSome_iff_exists]
  constructor
  · rintro ⟨rest, h⟩
    obtain ⟨before, htext, rfl⟩ := exists_of_sliceFrom?_eq_some h
    refine ⟨String.ofList before, String.ofList rest, ?_, ?_⟩
    · rw [← String.toList_inj, String.toList_append, String.toList_ofList, String.toList_ofList, htext]
    · rw [String.Pos.Raw.ext_iff, String.byteIdx_rawEndPos, String.utf8ByteSize_ofList]
  · rintro ⟨before, rest, rfl, h⟩
    rw [String.Pos.Raw.ext_iff, String.byteIdx_rawEndPos, ← String.utf8Len_toList] at h
    refine ⟨rest.toList, ?_⟩
    rw [String.toList_append, show n = utf8Len before.toList from h, sliceFrom?_append]

/-- A part lies between two boundaries of characters. -/
theorem isSome_slice?_iff (text : String) (start stop : Nat) :
    (slice? text.toList start stop).isSome = true ↔
      start ≤ stop ∧ String.Pos.Raw.IsValid text ⟨start⟩ ∧ String.Pos.Raw.IsValid text ⟨stop⟩ := by
  rw [← isSome_sliceFrom?_iff, ← isSome_sliceFrom?_iff, Option.isSome_iff_exists,
    Option.isSome_iff_exists, Option.isSome_iff_exists, slice?]
  constructor
  · rintro ⟨part, h⟩
    split at h
    next hle =>
      obtain ⟨behind, hfrom, hto⟩ := Option.bind_eq_some_iff.1 h
      obtain ⟨before, htext, hstart⟩ := exists_of_sliceFrom?_eq_some hfrom
      obtain ⟨rest, rfl, hlen⟩ := exists_of_sliceTo?_eq_some hto
      refine ⟨hle, ⟨part ++ rest, hfrom⟩, rest, ?_⟩
      rw [htext, ← List.append_assoc, show stop = utf8Len (before ++ part) by
        rw [String.utf8Len_append]
        omega, sliceFrom?_append]
    next => cases h
  · rintro ⟨hle, ⟨behind, hfrom⟩, rest, hto⟩
    obtain ⟨before, htext, rfl⟩ := exists_of_sliceFrom?_eq_some hfrom
    obtain ⟨before', htext', rfl⟩ := exists_of_sliceFrom?_eq_some hto
    rw [if_pos hle, hfrom, Option.bind_some]
    rcases List.append_eq_append_iff.1 (htext.symm.trans htext') with
      ⟨part, rfl, rfl⟩ | ⟨more, rfl, -⟩
    · refine ⟨part, ?_⟩
      rw [String.utf8Len_append, Nat.add_sub_cancel_left, sliceTo?_append]
    · refine ⟨[], ?_⟩
      rw [String.utf8Len_append, Nat.sub_add_eq, Nat.sub_self, Nat.zero_sub, sliceTo?_zero]

theorem isSome_sliceTo?_iff (text : String) (n : Nat) :
    (sliceTo? text.toList n).isSome = true ↔ String.Pos.Raw.IsValid text ⟨n⟩ := by
  have h := isSome_slice?_iff text 0 n
  rw [slice?, if_pos (Nat.zero_le n), sliceFrom?_zero, Option.bind_some, Nat.sub_zero] at h
  have hfront : String.Pos.Raw.IsValid text ⟨0⟩ := by
    rw [← isSome_sliceFrom?_iff, sliceFrom?_zero]
    rfl
  rw [h]
  exact ⟨fun hplaces => hplaces.2.2, fun hplace => ⟨Nat.zero_le n, hfront, hplace⟩⟩

/-- Texts with the same text behind them take up the same bytes only if they are the same. -/
theorem eq_of_append_eq_of_utf8Len_eq {before before' rest rest' : List Char}
    (h : before ++ rest = before' ++ rest') (hlen : utf8Len before = utf8Len before') :
    before = before' ∧ rest = rest' := by
  have hrest : rest = rest' := by
    have heq := sliceFrom?_append before rest
    rw [h, hlen, sliceFrom?_append] at heq
    exact (Option.some.inj heq).symm
  exact ⟨List.append_cancel_right (hrest ▸ h), hrest⟩

/-- Of two beginnings of a text the one with more bytes has more characters. -/
theorem utf8Len_lt_iff {taken taken' rest rest' : List Char} (h : taken ++ rest = taken' ++ rest') :
    utf8Len taken < utf8Len taken' ↔ rest'.length < rest.length := by
  rcases List.append_eq_append_iff.1 h with ⟨more, rfl, rfl⟩ | ⟨more, rfl, rfl⟩
  · rw [String.utf8Len_append, List.length_append]
    cases more with
    | nil => rw [String.utf8Len_nil, List.length_nil]; omega
    | cons c more =>
      have hpos := c.utf8Size_pos
      rw [String.utf8Len_cons, List.length_cons]
      omega
  · rw [String.utf8Len_append, List.length_append]
    omega

end PatternText
