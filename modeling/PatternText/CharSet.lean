import PatternText.Text.Blank
import Std.Data.HashSet

/-! Ordered sets of characters. A set lists its members once each, in the order in which they were
first put in, because a seeded draw picks a member by its place. Intersection and difference keep the
order of their first operand, union lists the first operand and then what the second adds. -/

namespace PatternText

/-- A set of characters with an order of its own. -/
structure CharSet where
  /-- The members in order. -/
  chars : Array Char
  nodup : chars.toList.Nodup

namespace CharSet

-- hashes as the core library has them
attribute [local instance (high)] instHashableChar

/-- The members of a growing set, in order and as an index. -/
private structure Growing where
  kept : Array Char
  seen : Std.HashSet Char
  agrees : ∀ c, seen.contains c = true ↔ c ∈ kept.toList
  nodup : kept.toList.Nodup

private def Growing.empty : Growing where
  kept := #[]
  seen := ∅
  agrees := by simp
  nodup := by simp

private def Growing.add (g : Growing) (c : Char) : Growing :=
  if h : g.seen.contains c then g else
    { kept := g.kept.push c
      seen := g.seen.insert c
      agrees := by
        intro d
        have := g.agrees d
        simp only [Std.HashSet.contains_insert, Bool.or_eq_true, beq_iff_eq, Array.toList_push,
          List.mem_append, List.mem_singleton, this]
        constructor
        · rintro (rfl | h)
          · exact .inr rfl
          · exact .inl h
        · rintro (h | rfl)
          · exact .inr h
          · exact .inl rfl
      nodup := by
        have hc : c ∉ g.kept.toList := fun hm => h ((g.agrees c).2 hm)
        rw [Array.toList_push, List.nodup_append]
        refine ⟨g.nodup, by simp, ?_⟩
        intro a ha b hb
        rw [List.mem_singleton.1 hb]
        exact fun e => hc (e ▸ ha) }

/-- The set of the characters listed, in order of first occurrence. -/
def ofChars (cs : List Char) : CharSet :=
  let g := cs.foldl Growing.add Growing.empty
  ⟨g.kept, g.nodup⟩

private theorem Growing.toList_add {g : Growing} {before : List Char}
    (h : g.kept.toList = before.eraseDups) (c : Char) :
    (g.add c).kept.toList = (before ++ [c]).eraseDups := by
  have hseen : g.seen.contains c = true ↔ c ∈ before := by
    rw [g.agrees, h, List.mem_eraseDups]
  rw [List.eraseDups_append, add]
  by_cases hc : c ∈ before
  · rw [dif_pos (hseen.2 hc), h]
    simp [List.removeAll, hc]
  · rw [dif_neg (mt hseen.1 hc), Array.toList_push, h]
    simp [List.removeAll, hc, List.eraseDups_cons]

private theorem Growing.toList_foldl {g : Growing} {before : List Char}
    (h : g.kept.toList = before.eraseDups) (cs : List Char) :
    (cs.foldl add g).kept.toList = (before ++ cs).eraseDups := by
  induction cs generalizing g before with
  | nil => rw [List.foldl_nil, List.append_nil, h]
  | cons c cs ih =>
    rw [List.foldl_cons, ih (toList_add h c), List.append_assoc, List.singleton_append]

theorem toList_ofChars (cs : List Char) : (ofChars cs).chars.toList = cs.eraseDups :=
  have hempty : Growing.empty.kept.toList = [].eraseDups := rfl
  Growing.toList_foldl hempty cs

/-- The set without members. -/
def empty : CharSet := ⟨#[], by simp⟩

instance : Inhabited CharSet := ⟨empty⟩

instance : BEq CharSet := ⟨fun a b => a.chars == b.chars⟩

/-- The characters from `lo` to `hi` by code point, none if `hi` comes before `lo`. -/
def charRange (lo hi : Char) : List Char :=
  (List.range' lo.toNat (hi.toNat + 1 - lo.toNat)).filterMap fun n =>
    if h : n.isValidChar then some (Char.ofNatAux n h) else none

theorem mem_charRange {lo hi c : Char} : c ∈ charRange lo hi ↔ lo ≤ c ∧ c ≤ hi := by
  rw [charRange, List.mem_filterMap, Char.le_def, Char.le_def, UInt32.le_iff_toNat_le,
    UInt32.le_iff_toNat_le]
  constructor
  · rintro ⟨n, hn, hc⟩
    obtain ⟨hvalid, hc⟩ := Option.dite_none_right_eq_some.1 hc
    obtain rfl := Option.some.inj hc
    rw [List.mem_range'_1] at hn
    show lo.toNat ≤ n ∧ n ≤ hi.toNat
    omega
  · rintro ⟨hlo, hhi⟩
    have hlo : lo.toNat ≤ c.toNat := hlo
    have hhi : c.toNat ≤ hi.toNat := hhi
    refine ⟨c.toNat, List.mem_range'_1.2 (by omega), ?_⟩
    rw [dif_pos (show c.toNat.isValidChar from c.valid)]
    rfl

theorem pairwise_charRange (lo hi : Char) : (charRange lo hi).Pairwise (· < ·) := by
  rw [charRange, List.pairwise_filterMap]
  refine (List.pairwise_lt_range' 1).imp fun {m n} hlt c hc d hd => ?_
  obtain ⟨hm, hc⟩ := Option.dite_none_right_eq_some.1 hc
  obtain ⟨hn, hd⟩ := Option.dite_none_right_eq_some.1 hd
  obtain rfl := Option.some.inj hc
  obtain rfl := Option.some.inj hd
  exact hlt

/-- The characters a written spec stands for: a single character is itself, two characters around a
hyphen are a range, and anything else stands for nothing. -/
def specChars : List Char → List Char
  | [c] => [c]
  | [lo, '-', hi] => charRange lo hi
  | _ => []

/-- The set of all characters that the specs stand for. -/
def ofSpecs (specs : List String) : CharSet :=
  ofChars (specs.flatMap fun spec => specChars spec.toList)

def size (s : CharSet) : Nat := s.chars.size

def isEmpty (s : CharSet) : Bool := s.chars.isEmpty

def contains (s : CharSet) (c : Char) : Bool := s.chars.contains c

theorem contains_iff {s : CharSet} {c : Char} : s.contains c = true ↔ c ∈ s.chars.toList := by
  rw [contains, Array.contains_iff_mem, Array.mem_toList_iff]

/-- The members as one text. -/
def toText (s : CharSet) : String := String.ofList s.chars.toList

/-- The members that satisfy `p`. -/
def filter (s : CharSet) (p : Char → Bool) : CharSet where
  chars := s.chars.filter p
  nodup := by
    rw [Array.toList_filter]
    exact s.nodup.sublist List.filter_sublist

/-- The members as an index for fast membership. -/
private def index (s : CharSet) : Std.HashSet Char :=
  s.chars.foldl Std.HashSet.insert ∅

private theorem contains_foldl_insert (cs : List Char) (seen : Std.HashSet Char) (c : Char) :
    (cs.foldl Std.HashSet.insert seen).contains c = true ↔ seen.contains c = true ∨ c ∈ cs := by
  induction cs generalizing seen with
  | nil => simp
  | cons d cs ih =>
    rw [List.foldl_cons, ih, Std.HashSet.contains_insert, Bool.or_eq_true, beq_iff_eq,
      List.mem_cons, eq_comm (a := d), or_assoc, or_left_comm]

private theorem contains_index (s : CharSet) (c : Char) : s.index.contains c = s.contains c := by
  rw [Bool.eq_iff_iff, index, ← Array.foldl_toList, contains_foldl_insert, contains_iff]
  simp

def union (a b : CharSet) : CharSet :=
  ofChars (a.chars.toList ++ b.chars.toList)

def inter (a b : CharSet) : CharSet :=
  let keep := b.index
  a.filter keep.contains

def diff (a b : CharSet) : CharSet :=
  let drop := b.index
  a.filter fun c => !drop.contains c

theorem toList_inter (a b : CharSet) :
    (a.inter b).chars.toList = a.chars.toList.filter b.contains := by
  rw [inter, filter, Array.toList_filter, funext b.contains_index]

theorem toList_diff (a b : CharSet) :
    (a.diff b).chars.toList = a.chars.toList.filter fun c => !b.contains c := by
  simp only [diff, filter, Array.toList_filter, contains_index]

end CharSet

end PatternText
