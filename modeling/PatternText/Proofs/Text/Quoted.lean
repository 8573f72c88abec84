import Mathlib
import PatternText.Number.Reading
import PatternText.Text.Quoted

/-! Reading quoted text back. The written form of a character tells where it ends, so the characters are
read one by one up to the closing mark, which stands for itself only there. Quoted text holds no line
feed, whatever is quoted. -/

namespace PatternText.Quoted

/-! ### Reading -/

/-- What stands behind a backslash for a character. -/
def escaped? : Char → Option Char
  | 't' => some '\t'
  | 'r' => some '\r'
  | 'n' => some '\n'
  | '0' => some '\x00'
  | '\\' => some '\\'
  | '"' => some '"'
  | '\'' => some '\''
  | _ => none

/-- The character with a code point in hexadecimal digits. -/
def ofHex? (digits : List Char) : Option Char :=
  (readDigits? 16 digits).bind fun n => if n.isValidChar then some (Char.ofNat n) else none

/-- The first character that a quoted text stands for, and the text behind its written form. -/
def read? : List Char → Option (Char × List Char)
  | [] => none
  | '\\' :: 'u' :: '\x7b' :: cs =>
    match cs.dropWhile (· != '\x7d') with
    | [] => none
    | _ :: rest => (ofHex? (cs.takeWhile (· != '\x7d'))).map (·, rest)
  | ['\\'] => none
  | '\\' :: c :: cs => (escaped? c).map (·, cs)
  | c :: cs => some (c, cs)

theorem length_lt_of_read? {cs rest : List Char} {c : Char} (h : read? cs = some (c, rest)) :
    rest.length < cs.length := by
  rw [read?.eq_def] at h
  split at h
  · cases h
  next cs =>
    split at h
    · cases h
    next d after hdrop =>
      obtain ⟨_, _, hrest⟩ := Option.map_eq_some_iff.1 h
      obtain ⟨-, rfl⟩ := Prod.mk.inj hrest
      have hle := (List.dropWhile_suffix (p := (· != '\x7d')) (l := cs)).length_le
      rw [hdrop] at hle
      simp only [List.length_cons] at hle ⊢
      omega
  · cases h
  · obtain ⟨_, _, hrest⟩ := Option.map_eq_some_iff.1 h
    obtain ⟨-, rfl⟩ := Prod.mk.inj hrest
    simp only [List.length_cons]
    omega
  · obtain ⟨-, rfl⟩ := Prod.mk.inj (Option.some.inj h)
    exact Nat.lt_succ_self _

theorem read?_plain {c : Char} (h : c ≠ '\\') (cs : List Char) : read? (c :: cs) = some (c, cs) := by
  rw [read?]
  · exact fun _ hc _ => h hc
  · exact fun hc _ => h hc
  · exact fun _ _ hc _ => h hc

theorem read?_hex {digits : List Char} (h : ∀ d ∈ digits, (d != '\x7d') = true) (rest : List Char) :
    read? ('\\' :: 'u' :: '\x7b' :: (digits ++ '\x7d' :: rest)) = (ofHex? digits).map (·, rest) := by
  have hdrop : (digits ++ '\x7d' :: rest).dropWhile (· != '\x7d') = '\x7d' :: rest := by
    rw [List.dropWhile_append_of_pos h]
    rfl
  have htake : (digits ++ '\x7d' :: rest).takeWhile (· != '\x7d') = digits := by
    rw [List.takeWhile_append_of_pos h]
    exact List.append_nil digits
  rw [read?, hdrop, htake]

/-- What a quoted text stands for up to the closing mark, which has to be its end. -/
def decode? (mark : Char) (cs : List Char) : Option (List Char) :=
  if cs = [mark] then some []
  else if cs.head? = some mark then none
  else
    match _h : read? cs with
    | some (c, rest) => (decode? mark rest).map (c :: ·)
    | none => none
termination_by cs.length
decreasing_by exact length_lt_of_read? _h

/-- What a text between double quotes stands for. -/
def unquote? : List Char → Option (List Char)
  | '"' :: cs => decode? '"' cs
  | _ => none

/-! ### Hexadecimal digits -/

theorem hexDigitValue?_digitChar : ∀ d < 16, hexDigitValue? (Nat.digitChar d) = some d := by
  decide

theorem digitValue?_digitChar {d : Nat} (h : d < 16) : digitValue? 16 (Nat.digitChar d) = some d := by
  rw [digitValue?, hexDigitValue?_digitChar d h, Option.filter_some, if_pos (decide_eq_true h)]

theorem exists_digit_of_mem_hexDigits {n : Nat} {c : Char} (h : c ∈ hexDigits n) :
    ∃ d < 16, c = Nat.digitChar d := by
  induction n using Nat.strong_induction_on with
  | _ n ih =>
    rw [hexDigits, Nat.toDigits_eq_if (by decide)] at h
    split at h
    next hlt => exact ⟨n, hlt, List.mem_singleton.1 h⟩
    next hge =>
      rcases List.mem_append.1 h with h | h
      · exact ih (n / 16) (by omega) h
      · exact ⟨n % 16, Nat.mod_lt n (by decide), List.mem_singleton.1 h⟩

theorem foldlM_hexDigits (n : Nat) :
    (hexDigits n).foldlM (fun value c => (digitValue? 16 c).map (16 * value + ·)) 0 = some n := by
  induction n using Nat.strong_induction_on with
  | _ n ih =>
    rw [hexDigits, Nat.toDigits_eq_if (by decide)]
    split
    next hlt => simp [digitValue?_digitChar hlt]
    next hge =>
      have hlast := digitValue?_digitChar (Nat.mod_lt n (by decide : 0 < 16))
      have hfront := ih (n / 16) (by omega)
      rw [hexDigits] at hfront
      rw [List.foldlM_append, hfront]
      simp [hlast, Nat.div_add_mod]

/-- The digits of a character tell the character. -/
theorem ofHex?_hexDigits (c : Char) : ofHex? (hexDigits c.toNat) = some c := by
  have hne : (hexDigits c.toNat).isEmpty = false := by
    rw [hexDigits, Nat.toDigits_eq_if (by decide)]
    split <;> simp
  have hread : readDigits? 16 (hexDigits c.toNat) = some c.toNat := by
    rw [readDigits?, hne, foldlM_hexDigits]
    rfl
  rw [ofHex?, hread, Option.bind_some, if_pos (show c.toNat.isValidChar from c.valid),
    Char.ofNat_toNat]

/-! ### Written forms -/

theorem ne_brace_of_mem_hexDigits {n : Nat} : ∀ c ∈ hexDigits n, (c != '\x7d') = true := by
  intro c hc
  obtain ⟨d, hd, rfl⟩ := exists_digit_of_mem_hexDigits hc
  have hall : ∀ d < 16, (Nat.digitChar d != '\x7d') = true := by decide
  exact hall d hd

theorem lineFeed_notMem_hexDigits {n : Nat} : '\n' ∉ hexDigits n := by
  intro hmem
  obtain ⟨d, hd, hc⟩ := exists_digit_of_mem_hexDigits hmem
  have hall : ∀ d < 16, '\n' ≠ Nat.digitChar d := by decide
  exact hall d hd hc

section Written

variable {mark : Char} (hmark : mark = '"' ∨ mark = '\'')
include hmark

/-- A written form is read as its character, whatever follows. -/
theorem read?_escape (c : Char) (rest : List Char) : read? (escape mark c ++ rest) = some (c, rest) := by
  rw [escape]
  split_ifs with ht hr hn h0 hself hprints
  · rw [ht]; rfl
  · rw [hr]; rfl
  · rw [hn]; rfl
  · rw [h0]; rfl
  · have hself : c = '\\' ∨ c = '"' ∨ c = '\'' := by
      rcases Bool.or_eq_true_iff.1 hself with hself | hself
      · exact .inl (of_decide_eq_true hself)
      · rw [of_decide_eq_true hself]
        exact .inr hmark
    rcases hself with rfl | rfl | rfl <;> rfl
  · exact read?_plain (fun h => hself (by rw [h]; rfl)) rest
  · have hform : ['\\', 'u', '\x7b'] ++ hexDigits c.toNat ++ ['\x7d'] ++ rest =
        '\\' :: 'u' :: '\x7b' :: (hexDigits c.toNat ++ '\x7d' :: rest) := by simp
    rw [hform, read?_hex ne_brace_of_mem_hexDigits, ofHex?_hexDigits]
    rfl

/-- No written form looks like the closing mark. -/
theorem head?_escape_ne (c : Char) (rest : List Char) : (escape mark c ++ rest).head? ≠ some mark := by
  have hbackslash : some '\\' ≠ some mark := by
    rcases hmark with rfl | rfl <;> decide
  rw [escape]
  split_ifs with ht hr hn h0 hself hprints
  · exact hbackslash
  · exact hbackslash
  · exact hbackslash
  · exact hbackslash
  · exact hbackslash
  · intro h
    rw [Option.some.inj h] at hself
    exact hself (by simp)
  · exact hbackslash

theorem decode?_escape (c : Char) (rest : List Char) :
    decode? mark (escape mark c ++ rest) = (decode? mark rest).map (c :: ·) := by
  have hhead := head?_escape_ne hmark c rest
  have hlonger : escape mark c ++ rest ≠ [mark] := fun h => hhead (by rw [h]; rfl)
  rw [decode?, if_neg hlonger, if_neg hhead]
  split
  next d rest' h =>
    rw [read?_escape hmark] at h
    obtain ⟨rfl, rfl⟩ := Prod.mk.inj (Option.some.inj h)
    rfl
  next h =>
    rw [read?_escape hmark] at h
    cases h

/-- Quoted text stands for what was quoted. -/
theorem decode?_encode (cs : List Char) : decode? mark (encode mark cs ++ [mark]) = some cs := by
  induction cs with
  | nil => rw [encode, List.flatMap_nil, List.nil_append, decode?, if_pos rfl]
  | cons c cs ih =>
    rw [encode, List.flatMap_cons, List.append_assoc, decode?_escape hmark, ← encode, ih]
    rfl

theorem lineFeed_notMem_escape (c : Char) : '\n' ∉ escape mark c := by
  have hne : '\n' ≠ mark := by
    rcases hmark with rfl | rfl <;> decide
  rw [escape]
  split_ifs with ht hr hn h0 hself hprints
  · decide
  · decide
  · decide
  · decide
  · have hfeed : '\n' ≠ c := Ne.symm hn
    simp [hfeed]
  · simpa using Ne.symm hn
  · simp [lineFeed_notMem_hexDigits]

end Written

theorem unquote?_ofString (s : String) : unquote? (ofString s).toList = some s.toList := by
  rw [ofString, String.toList_ofList]
  exact decode?_encode (.inl rfl) s.toList

/-- Quoted text stands on one line. -/
theorem lineFeed_notMem_ofString (s : String) : '\n' ∉ (ofString s).toList := by
  rw [ofString, String.toList_ofList]
  simp [encode, lineFeed_notMem_escape]

theorem head?_ofString (s : String) : (ofString s).toList.head? = some '"' := by
  rw [ofString, String.toList_ofList]
  rfl

theorem getLast?_ofString (s : String) : (ofString s).toList.getLast? = some '"' := by
  rw [ofString, String.toList_ofList, List.getLast?_concat]

end PatternText.Quoted
