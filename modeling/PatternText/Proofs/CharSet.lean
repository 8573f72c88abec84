import PatternText.Proofs.FirstOccurrences
import PatternText.Proofs.Program.Classes

/-! Ordered sets of characters. However sets are put together, from specs, from rows of characters, or
from other sets, a set lists its members once each; which ones and in which order is determined by what it
was made from. No operation looks at whether its operands have members twice, so that they have not is
kept along the whole expression that makes a set. -/

namespace PatternText

/-! ### First occurrences -/

/-- The members of the row, in the order in which they first stand in it. -/
structure FirstOccurrences (members row : List Char) : Prop where
  mem_iff : ∀ c, c ∈ members ↔ c ∈ row
  ordered : members.Pairwise fun c d => row.idxOf c < row.idxOf d

theorem FirstOccurrences.nodup {members row : List Char} (h : FirstOccurrences members row) :
    members.Nodup :=
  h.ordered.imp fun hlt heq => absurd (heq ▸ hlt) (Nat.lt_irrefl _)

theorem firstOccurrences_eraseDups (row : List Char) : FirstOccurrences row.eraseDups row where
  mem_iff _ := List.mem_eraseDups
  ordered := pairwise_idxOf_eraseDups row

/-! ### Specs -/

/-- What a spec stands for: one character, the characters of a range in order, or nothing. -/
inductive Enumerates : List Char → List Char → Prop where
  | single (c : Char) : Enumerates [c] [c]
  | range {lo hi : Char} {row : List Char} (mem_iff : ∀ c, c ∈ row ↔ lo ≤ c ∧ c ≤ hi)
      (ordered : row.Pairwise (· < ·)) : Enumerates [lo, '-', hi] row
  | nothing {spec : List Char} (single : ∀ c, spec ≠ [c]) (range : ∀ lo hi, spec ≠ [lo, '-', hi]) :
      Enumerates spec []

theorem enumerates_specChars (spec : List Char) : Enumerates spec (CharSet.specChars spec) := by
  unfold CharSet.specChars
  split
  next c => exact .single c
  next lo hi => exact .range (fun c => CharSet.mem_charRange) (CharSet.pairwise_charRange lo hi)
  next hsingle hrange => exact .nothing hsingle hrange

theorem Enumerates.mem_iff {spec row : List Char} (h : Enumerates spec row) (c : Char) :
    c ∈ row ↔ spec = [c] ∨ ∃ lo hi, spec = [lo, '-', hi] ∧ lo ≤ c ∧ c ≤ hi := by
  cases h with
  | single d =>
    rw [List.mem_singleton]
    constructor
    · rintro rfl
      exact .inl rfl
    · rintro (h | ⟨lo, hi, h, -⟩)
      · exact (List.cons.inj h).1.symm
      · cases h
  | @range lo hi _ hmem =>
    rw [hmem]
    constructor
    · exact fun h => .inr ⟨lo, hi, rfl, h⟩
    · rintro (h | ⟨lo', hi', h, hle⟩)
      · cases h
      · cases h
        exact hle
  | nothing hsingle hrange =>
    refine iff_of_false List.not_mem_nil ?_
    rintro (h | ⟨lo, hi, h, -⟩)
    · exact hsingle c h
    · exact hrange lo hi h

namespace CharSet

/-- The specs one after the other, with the characters that each stands for. -/
theorem enumerates_ofSpecs (specs : List String) : ∃ rows : List (List Char),
    List.Forall₂ (fun spec row => Enumerates spec.toList row) specs rows ∧
      FirstOccurrences (ofSpecs specs).chars.toList rows.flatten := by
  refine ⟨specs.map fun spec => specChars spec.toList, ?_, ?_⟩
  · rw [List.forall₂_map_right_iff, List.forall₂_same]
    exact fun spec _ => enumerates_specChars spec.toList
  · rw [ofSpecs, toList_ofChars, List.flatMap]
    exact firstOccurrences_eraseDups _

theorem contains_ofSpecs_iff (specs : List String) (c : Char) : (ofSpecs specs).contains c = true ↔
    ∃ spec ∈ specs, spec.toList = [c] ∨
      ∃ lo hi, spec.toList = [lo, '-', hi] ∧ lo ≤ c ∧ c ≤ hi := by
  rw [contains_iff, ofSpecs, toList_ofChars, List.mem_eraseDups, List.mem_flatMap]
  exact exists_congr fun spec => and_congr_right fun _ =>
    (enumerates_specChars spec.toList).mem_iff c

/-! ### Operations -/

section Operations

variable (a b : CharSet)

theorem toList_union : (a.union b).chars.toList =
    a.chars.toList ++ b.chars.toList.filter fun c => !a.contains c := by
  have hmem (c : Char) : a.chars.toList.contains c = a.contains c := by
    rw [Bool.eq_iff_iff, List.contains_iff_mem, contains_iff]
  rw [union, toList_ofChars, List.eraseDups_append, eraseDups_of_nodup a.nodup, List.removeAll]
  simp only [List.elem_eq_contains, hmem]
  rw [eraseDups_of_nodup (b.nodup.sublist List.filter_sublist)]

/-- What the three operations make of two sets. -/
structure SetLaws : Prop where
  contains_union (c : Char) : (a.union b).contains c = (a.contains c || b.contains c)
  contains_inter (c : Char) : (a.inter b).contains c = (a.contains c && b.contains c)
  contains_diff (c : Char) : (a.diff b).contains c = (a.contains c && !b.contains c)
  /-- The first set, and then what the second one has besides. -/
  toList_union : (a.union b).chars.toList =
    a.chars.toList ++ b.chars.toList.filter fun c => !a.contains c
  /-- Members keep their order, here and in differences. -/
  toList_inter : (a.inter b).chars.toList = a.chars.toList.filter b.contains
  toList_diff : (a.diff b).chars.toList = a.chars.toList.filter fun c => !b.contains c
  disjoint (c : Char) : ¬((a.inter b).contains c = true ∧ (a.diff b).contains c = true)
  size_parts : (a.inter b).size + (a.diff b).size = a.size
  size_union : (a.union b).size = a.size + (b.diff a).size

theorem setLaws : SetLaws a b where
  contains_union c := by
    rw [Bool.eq_iff_iff, Bool.or_eq_true, contains_iff, contains_iff, contains_iff, union,
      toList_ofChars, List.mem_eraseDups, List.mem_append]
  contains_inter c := by
    rw [Bool.eq_iff_iff, Bool.and_eq_true, contains_iff, mem_inter, contains_iff, contains_iff]
  contains_diff c := by
    rw [Bool.eq_iff_iff, Bool.and_eq_true, contains_iff, mem_diff, contains_iff, Bool.not_eq_true',
      ← Bool.not_eq_true, contains_iff]
  toList_union := toList_union a b
  toList_inter := toList_inter a b
  toList_diff := toList_diff a b
  disjoint c h := (mem_diff.1 (contains_iff.1 h.2)).2 (mem_inter.1 (contains_iff.1 h.1)).2
  size_parts := by
    rw [size, size, size, ← Array.length_toList, ← Array.length_toList, ← Array.length_toList,
      toList_inter, toList_diff, ← List.length_eq_length_filter_add]
  size_union := by
    rw [size, size, size, ← Array.length_toList, ← Array.length_toList, ← Array.length_toList,
      toList_union, toList_diff, List.length_append]

end Operations

end CharSet

/-! ### Expressions -/

/-- How a set is put together. -/
inductive SetExpr where
  | specs (texts : List String)
  | chars (cs : List Char)
  | union (a b : SetExpr)
  | inter (a b : SetExpr)
  | diff (a b : SetExpr)

namespace SetExpr

def make : SetExpr → CharSet
  | .specs texts => .ofSpecs texts
  | .chars cs => .ofChars cs
  | .union a b => a.make.union b.make
  | .inter a b => a.make.inter b.make
  | .diff a b => a.make.diff b.make

/-- What the operations make of rows of characters, in which some might stand twice. -/
def row : SetExpr → List Char
  | .specs texts => (texts.flatMap fun spec => CharSet.specChars spec.toList).eraseDups
  | .chars cs => cs.eraseDups
  | .union a b => (a.row ++ b.row).eraseDups
  | .inter a b => a.row.filter fun c => b.row.contains c
  | .diff a b => a.row.filter fun c => !b.row.contains c

/-- Filtering removes no repetitions, but its operand has none. -/
theorem nodup_row (e : SetExpr) : e.row.Nodup := by
  induction e with
  | specs texts => exact (firstOccurrences_eraseDups _).nodup
  | chars cs => exact (firstOccurrences_eraseDups cs).nodup
  | union a b _ _ => exact (firstOccurrences_eraseDups _).nodup
  | inter a b ha _ => exact ha.sublist List.filter_sublist
  | diff a b ha _ => exact ha.sublist List.filter_sublist

theorem toList_make (e : SetExpr) : e.make.chars.toList = e.row := by
  have hcontains (e : SetExpr) (h : e.make.chars.toList = e.row) (c : Char) :
      e.make.contains c = e.row.contains c := by
    rw [Bool.eq_iff_iff, CharSet.contains_iff, List.contains_iff_mem, h]
  induction e with
  | specs texts => exact CharSet.toList_ofChars _
  | chars cs => exact CharSet.toList_ofChars cs
  | union a b ha hb => rw [make, CharSet.union, CharSet.toList_ofChars, ha, hb, row]
  | inter a b ha hb => rw [make, CharSet.toList_inter, ha, funext (hcontains b hb), row]
  | diff a b ha hb => simp only [make, CharSet.toList_diff, ha, hcontains b hb, row]

end SetExpr

/-- A set made from specs has the characters that the specs stand for, in the order in which they first
stand in the ranges and single characters one after the other; there are no surrogates among them. A set
made from a row of characters lists these in the order of their first occurrence. Every set put together
from such sets has each member once, as the same operations have it on rows, and of any two sets the union,
the intersection and the difference have the members, the order and the sizes to be expected. -/
theorem ordered_sets :
    (∀ specs : List String,
      (∀ c, (CharSet.ofSpecs specs).contains c = true ↔ ∃ spec ∈ specs, spec.toList = [c] ∨
        ∃ lo hi, spec.toList = [lo, '-', hi] ∧ lo ≤ c ∧ c ≤ hi) ∧
      (∃ rows : List (List Char), List.Forall₂ (fun spec row => Enumerates spec.toList row) specs rows ∧
        FirstOccurrences (CharSet.ofSpecs specs).chars.toList rows.flatten) ∧
      ∀ c, (CharSet.ofSpecs specs).contains c = true → c.toNat < 0xD800 ∨ 0xDFFF < c.toNat) ∧
    (∀ cs : List Char, FirstOccurrences (CharSet.ofChars cs).chars.toList cs) ∧
    (∀ e : SetExpr, e.make.chars.toList = e.row ∧ e.row.Nodup) ∧
    ∀ a b : CharSet, a.SetLaws b := by
  refine ⟨fun specs => ⟨CharSet.contains_ofSpecs_iff specs, CharSet.enumerates_ofSpecs specs,
    fun c _ => ?_⟩, fun cs => ?_, fun e => ⟨e.toList_make, e.nodup_row⟩, CharSet.setLaws⟩
  · exact c.valid.imp_right And.left
  · rw [CharSet.toList_ofChars]
    exact firstOccurrences_eraseDups cs

end PatternText
