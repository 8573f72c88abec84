import Mathlib.Order.Bounds.Basic
import PatternText.CharSet
import PatternText.Proofs.Pattern.Nodes

/-! Lists as a scanner cuts them. A list behind an opening bracket is over at the first closing bracket
that is not its first character and has no backslash before it; what stands before is cut into items
from the left, without looking back. Rows of list characters are cut in this way and close where the
scanner says, so a list is matched exactly where the scanner finds one. -/

namespace PatternText

/-! ### The scanner -/

/-- The closing bracket at this place ends the list: no earlier place behind the first character has a
closing bracket without a backslash before it. -/
def Closes (r : List Char) (k : Nat) : Prop :=
  IsLeast {k | 1 ≤ k ∧ r[k]? = some ']' ∧ r[k - 1]? ≠ some '\\'} k

/-- An item of a list by the characters that are meant. -/
inductive ScanItem where
  | single (c : Char)
  | range (first last : Char)
  deriving DecidableEq, Repr

/-- The characters of an item: those of a range in ascending order, none if it is reversed. -/
def ScanItem.chars : ScanItem → List Char
  | single c => [c]
  | range first last => CharSet.charRange first last

/-- The character at the front of a list, and what follows it: a backslash and a closing bracket mean
the bracket whenever they stand there. -/
def scanChar : List Char → Option (Char × List Char)
  | '\\' :: ']' :: cs => some (']', cs)
  | c :: cs => if c = ']' then none else some (c, cs)
  | [] => none

/-- The item at the front of a list, and what follows it. -/
def scanItem (cs : List Char) : Option (ScanItem × List Char) :=
  match scanChar cs with
  | some (first, '-' :: behind) =>
    match scanChar behind with
    | some (last, rest) => some (.range first last, rest)
    | none => some (.single first, '-' :: behind)
  | some (first, rest) => some (.single first, rest)
  | none => none

theorem length_lt_of_scanChar {cs rest : List Char} {c : Char} (h : scanChar cs = some (c, rest)) :
    rest.length < cs.length := by
  fun_cases scanChar cs with
  | case1 cs =>
    cases h
    exact Nat.lt_succ_of_lt (Nat.lt_succ_self _)
  | case2 cs hescaped => cases h
  | case3 c cs hescaped hother =>
    rw [scanChar, if_neg hother] at h
    · cases h
      exact Nat.lt_succ_self _
    · exact hescaped
  | case4 => cases h

theorem length_lt_of_scanItem {cs rest : List Char} {item : ScanItem}
    (h : scanItem cs = some (item, rest)) : rest.length < cs.length := by
  rw [scanItem] at h
  split at h
  next first behind hfirst =>
    have hshorter := length_lt_of_scanChar hfirst
    split at h
    next last rest' hlast =>
      cases h
      exact (length_lt_of_scanChar hlast).trans ((Nat.lt_succ_self _).trans hshorter)
    next =>
      cases h
      exact hshorter
  next first rest' hother hfirst =>
    cases h
    exact length_lt_of_scanChar hfirst
  next => cases h

theorem scanItem_range {cs behind rest : List Char} {first last : Char}
    (hfirst : scanChar cs = some (first, '-' :: behind)) (hlast : scanChar behind = some (last, rest)) :
    scanItem cs = some (.range first last, rest) := by
  simp only [scanItem, hfirst, hlast]

/-- A hyphen that nothing follows is no range. -/
theorem scanItem_single {cs rest : List Char} {first : Char} (hfirst : scanChar cs = some (first, rest))
    (hrest : ∀ behind, rest = '-' :: behind → scanChar behind = none) :
    scanItem cs = some (.single first, rest) := by
  rw [scanItem, hfirst]
  split
  next first' behind heq =>
    obtain ⟨rfl, hbehind⟩ := Prod.mk.inj (Option.some.inj heq)
    rw [hrest behind hbehind, hbehind]
  next first' rest' hother heq =>
    cases heq
    rfl
  next heq => cases heq

/-- The items of a list from left to right. -/
def scanItems (cs : List Char) : List ScanItem :=
  match _h : scanItem cs with
  | some (item, rest) => item :: scanItems rest
  | none => []
termination_by cs.length
decreasing_by exact length_lt_of_scanItem _h

theorem scanItems_of_some {cs rest : List Char} {item : ScanItem}
    (h : scanItem cs = some (item, rest)) : scanItems cs = item :: scanItems rest := by
  rw [scanItems]
  split
  next item' rest' h' =>
    cases h.symm.trans h'
    rfl
  next h' => cases h.symm.trans h'

theorem scanItems_nil : scanItems [] = [] := by
  rw [scanItems]
  rfl

/-! ### Rows of list characters -/

namespace ListChar

/-- The character that is meant. -/
def char : ListChar → Char
  | plain c _ => c
  | bracket => ']'

theorem scanChar_textAll {t : ListChar} {ts : List ListChar} (h : Clean (t :: ts) []) :
    scanChar (textAll (t :: ts)) = some (t.char, textAll ts) := by
  have hfirst := h.1
  rw [List.append_nil] at hfirst
  rw [textAll, List.flatMap_cons, ← textAll]
  cases t with
  | plain c other =>
    rw [text, List.singleton_append, scanChar, if_neg other, char]
    rintro cs rfl hcs
    exact hfirst rfl (hcs ▸ rfl)
  | bracket => rfl

/-- In a row of list characters every closing bracket has a backslash before it. -/
theorem escaped_of_textAll (ts : List ListChar) (j : Nat) (h : (textAll ts)[j]? = some ']') :
    1 ≤ j ∧ (textAll ts)[j - 1]? = some '\\' := by
  induction ts generalizing j with
  | nil => cases h
  | cons t ts ih =>
    rw [textAll, List.flatMap_cons, ← textAll] at h ⊢
    cases t with
    | plain c other =>
      rw [text, List.singleton_append] at h ⊢
      cases j with
      | zero => exact absurd (Option.some.inj h) other
      | succ j =>
        obtain ⟨hpos, hbefore⟩ := ih j h
        obtain ⟨j, rfl⟩ := Nat.exists_eq_succ_of_ne_zero (Nat.one_le_iff_ne_zero.1 hpos)
        exact ⟨Nat.le_add_left _ _, hbefore⟩
    | bracket =>
      rw [text, List.cons_append, List.singleton_append] at h ⊢
      rcases j with _ | _ | j
      · cases h
      · exact ⟨Nat.le_refl _, rfl⟩
      · obtain ⟨hpos, hbefore⟩ := ih j h
        obtain ⟨j, rfl⟩ := Nat.exists_eq_succ_of_ne_zero (Nat.one_le_iff_ne_zero.1 hpos)
        exact ⟨Nat.le_add_left _ _, hbefore⟩

/-- A row that a closing bracket follows does not end in a single backslash. -/
theorem getLast?_textAll_ne {ts : List ListChar} {rest : List Char} (h : Clean ts (']' :: rest)) :
    (textAll ts).getLast? ≠ some '\\' := by
  induction ts with
  | nil => exact (Option.some_ne_none _).symm
  | cons t ts ih =>
    rw [textAll, List.flatMap_cons, ← textAll, List.getLast?_append]
    by_cases hts : ts = []
    · subst hts
      intro hlast
      cases t with
      | plain c other =>
        obtain rfl : c = '\\' := Option.some.inj hlast
        exact h.1 rfl rfl
      | bracket => exact absurd (Option.some.inj hlast) (by decide)
    · obtain ⟨c, hc⟩ := Option.ne_none_iff_exists'.1
        (mt List.getLast?_eq_none_iff.1 (textAll_ne_nil hts))
      rw [hc, Option.some_or, ← hc]
      exact ih h.2

/-- A row that ends before a closing bracket is read in the same way by itself. -/
theorem Clean.alone {ts : List ListChar} {rest : List Char} (h : Clean ts (']' :: rest)) :
    Clean ts [] := by
  induction ts with
  | nil => exact .inl rfl
  | cons t ts ih =>
    refine ⟨fun ht => ?_, ih h.2⟩
    cases ts with
    | nil => nofun
    | cons u us =>
      have hfirst := h.1 ht
      rw [textAll_cons] at hfirst ⊢
      cases u <;> exact hfirst

end ListChar

open ListChar

namespace ListItem

/-- The item by the characters that are meant. -/
def scanned : ListItem → ScanItem
  | single t => .single t.char
  | range first last => .range first.char last.char

end ListItem

/-- The scanner cuts a row of list characters into its items. -/
theorem scanItems_textAll {ts : List ListChar} (h : Clean ts []) :
    scanItems (textAll ts) = (listItems ts).map ListItem.scanned := by
  fun_induction listItems ts with
  | case1 first other last ts ih =>
    have hitem : scanItem (textAll (first :: plain '-' other :: last :: ts)) =
        some (.range first.char last.char, textAll ts) :=
      scanItem_range (scanChar_textAll h) (scanChar_textAll h.2.2)
    rw [scanItems_of_some hitem, ih h.2.2.2, List.map_cons, ListItem.scanned]
  | case2 t ts hrange ih =>
    have hitem : scanItem (textAll (t :: ts)) = some (.single t.char, textAll ts) := by
      refine scanItem_single (scanChar_textAll h) fun behind hbehind => ?_
      cases ts with
      | nil => cases hbehind
      | cons u us =>
        cases u with
        | bracket => exact absurd (List.cons.inj hbehind).1 (by decide)
        | plain c other =>
          obtain ⟨rfl, rfl⟩ := List.cons.inj hbehind
          cases us with
          | nil => rfl
          | cons last us => exact absurd rfl (hrange other last us)
    rw [scanItems_of_some hitem, ih h.2, List.map_cons, ListItem.scanned]
  | case3 => exact scanItems_nil

/-- The bracket that ends a row of list characters closes the list. -/
theorem closes_textAll {ts : List ListChar} {rest : List Char} (hne : ts ≠ [])
    (h : Clean ts (']' :: rest)) : Closes (textAll ts ++ ']' :: rest) (textAll ts).length := by
  have hpos : 0 < (textAll ts).length := List.length_pos_iff.2 (textAll_ne_nil hne)
  refine ⟨⟨hpos, ?_, ?_⟩, ?_⟩
  · rw [List.getElem?_append_right (Nat.le_refl _), Nat.sub_self]
    rfl
  · rw [List.getElem?_append_left (Nat.sub_one_lt_of_lt hpos), ← List.getLast?_eq_getElem?]
    exact getLast?_textAll_ne h
  · rintro j ⟨-, hclose, hbefore⟩
    by_contra hlt
    have hlt : j < (textAll ts).length := Nat.not_le.1 hlt
    rw [List.getElem?_append_left hlt] at hclose
    rw [List.getElem?_append_left (Nat.lt_of_le_of_lt (Nat.sub_le j 1) hlt)] at hbefore
    exact hbefore (escaped_of_textAll ts j hclose).2

/-- Where the scanner finds the end of a list, a row of list characters ends. -/
theorem exists_row_of_closes {r : List Char} {k : Nat} (hne : r ≠ []) (hhead : r.head? ≠ some ']')
    (h : Closes r k) : ∃ ts rest, ts ≠ [] ∧ Clean ts (']' :: rest) ∧
      r = textAll ts ++ ']' :: rest ∧ k = (textAll ts).length := by
  obtain ⟨ts, stop, rfl, hclean⟩ := exists_clean r
  rcases hclean.over with rfl | hstop
  · rw [List.append_nil] at h
    exact absurd (escaped_of_textAll ts k h.1.2.1).2 h.1.2.2
  · obtain ⟨rest, rfl⟩ := List.head?_eq_some_iff.1 hstop
    have hts : ts ≠ [] := by
      rintro rfl
      exact hhead rfl
    exact ⟨ts, rest, hts, hclean, rfl, h.unique (closes_textAll hts hclean)⟩

/-! ### Lists -/

namespace CharList

/-- The characters between the brackets. -/
def body (l : CharList) : List Char := (if l.negated then ['^'] else []) ++ textAll l.chars

/-- The list characters between the brackets, a negating caret among them. -/
def row (l : CharList) : List ListChar := if l.negated then caret :: l.chars else l.chars

theorem text_append (l : CharList) (rest : List Char) :
    l.text ++ rest = '[' :: (l.body ++ ']' :: rest) := by
  rw [text, body, List.cons_append, List.append_assoc, List.append_assoc, List.append_assoc]
  rfl

theorem textAll_row (l : CharList) : textAll l.row = l.body := by
  rw [row, body]
  cases l.negated <;> rfl

theorem row_ne_nil (l : CharList) : l.row ≠ [] := by
  rw [row]
  split
  · exact List.cons_ne_nil _ _
  · exact l.nonempty

theorem clean_row (l : CharList) (rest : List Char) : Clean l.row (']' :: rest) := by
  have hclean : Clean l.chars (']' :: rest) := l.clean.congr rfl
  rw [row]
  split
  · exact ⟨nofun, hclean⟩
  · exact hclean

theorem closes_body (l : CharList) (rest : List Char) :
    Closes (l.body ++ ']' :: rest) l.body.length := by
  rw [← textAll_row]
  exact closes_textAll l.row_ne_nil (l.clean_row rest)

/-- A list is negated if its body begins with a caret and has more than that. -/
theorem negated_iff (l : CharList) :
    l.negated = true ↔ l.body.head? = some '^' ∧ 2 ≤ l.body.length := by
  obtain ⟨negated, chars, hne, hclean, hcaret⟩ := l
  have hpos := List.length_pos_iff.2 (textAll_ne_nil hne)
  cases negated with
  | true =>
    refine iff_of_true rfl ⟨rfl, ?_⟩
    show 2 ≤ (textAll chars).length + 1
    omega
  | false =>
    refine iff_of_false Bool.false_ne_true ?_
    show ¬((textAll chars).head? = some '^' ∧ 2 ≤ (textAll chars).length)
    rintro ⟨hhead, hlong⟩
    cases chars with
    | nil => exact hne rfl
    | cons t ts =>
      have ht : t = caret := by
        cases t with
        | plain c other =>
          obtain rfl : c = '^' := Option.some.inj hhead
          rfl
        | bracket => exact absurd (Option.some.inj hhead) (by decide)
      subst ht
      obtain rfl := hcaret rfl ts rfl
      exact absurd hlong (by decide)

theorem head?_body_ne (l : CharList) : l.body.head? ≠ some ']' := by
  rw [← textAll_row]
  obtain ⟨t, ts, hrow⟩ := List.exists_cons_of_ne_nil l.row_ne_nil
  rw [hrow]
  cases t with
  | plain c other => exact fun hhead => other (Option.some.inj hhead)
  | bracket => exact fun hhead => absurd (Option.some.inj hhead) (by decide)

end CharList

namespace Part

open Grammar

variable {r rest : List Char} {tree : ParseTree}

/-- What is matched as a character behind an opening bracket is a list. -/
theorem exists_list_of_reads_char (h : char.reads ('[' :: r) = some (tree, rest)) :
    ∃ l : CharList, '[' :: r = l.text ++ rest ∧ tree = char.node [l.tree] := by
  obtain ⟨htakes, hcs⟩ := takes_of_reads h
  obtain ⟨a, ha⟩ := exists_char (unfolds_takes_longest patternGrammar_not_leftRecursive)
    (fun _ => exists_list_of_longest) htakes
  rw [ha] at hcs
  cases a with
  | list l =>
    refine ⟨l, hcs, ?_⟩
    rw [hcs, Atom.text, reads_char_list] at h
    exact (Prod.mk.inj (Option.some.inj h)).1.symm
  | plain c other =>
    obtain rfl : '[' = c := (List.cons.inj hcs).1
    exact absurd (by decide) other
  | escaped _ _ | named _ _ _ | backref _ _ | dot | source _ _ | numeric _ _ =>
    exact absurd (List.cons.inj hcs).1 (by decide)

/-- A character is matched behind an opening bracket where the scanner finds the end of a list. -/
theorem exists_list_of_closes {k : Nat} (hne : r ≠ []) (hhead : r.head? ≠ some ']')
    (h : Closes r k) : ∃ l : CharList, r.take k = l.body ∧ k = l.body.length ∧
      char.reads ('[' :: r) = some (char.node [l.tree], r.drop (k + 1)) := by
  obtain ⟨ts, rest, hts, hclean, rfl, rfl⟩ := exists_row_of_closes hne hhead h
  obtain ⟨l, hl⟩ := CharList.exists_of_clean hts (hclean.congr rfl)
  have hbody : l.body = textAll ts := by
    have htext := l.text_append []
    rw [List.append_nil, hl] at htext
    exact (List.append_cancel_right (List.cons.inj htext).2).symm
  refine ⟨l, ?_, by rw [hbody], ?_⟩
  · rw [hbody, List.take_left]
  · rw [← List.singleton_append (l := rest), ← List.append_assoc,
      List.drop_left' (by rw [List.length_append, List.length_singleton]), List.append_assoc,
      List.singleton_append, ← hbody, ← l.text_append]
    exact reads_char_list l

theorem isSome_reads_char_iff : (char.reads ('[' :: r)).isSome = true ↔
    r ≠ [] ∧ r.head? ≠ some ']' ∧ ∃ k, Closes r k := by
  constructor
  · intro h
    obtain ⟨⟨tree, rest⟩, hread⟩ := Option.isSome_iff_exists.1 h
    obtain ⟨l, hcs, -⟩ := exists_list_of_reads_char hread
    rw [l.text_append] at hcs
    obtain rfl := (List.cons.inj hcs).2
    obtain ⟨c, cs, hbody⟩ := List.exists_cons_of_ne_nil
      (l.textAll_row ▸ textAll_ne_nil l.row_ne_nil)
    refine ⟨?_, ?_, l.body.length, l.closes_body rest⟩
    · rw [hbody]
      exact List.cons_ne_nil _ _
    · rw [List.head?_append_of_ne_nil _ (hbody ▸ List.cons_ne_nil _ _)]
      exact l.head?_body_ne
  · rintro ⟨hne, hhead, k, hk⟩
    obtain ⟨l, -, -, hread⟩ := exists_list_of_closes hne hhead hk
    rw [hread]
    rfl

end Part

end PatternText
