import PatternText.Source.CharClass

/-! The characters of a class as ranges of code points, in order and apart from each other, and the
encodings of a range as rows of ranges of bytes. -/

namespace PatternText.Source

/-- Code points from `lo` to `hi`. -/
structure CodeRange where
  lo : Nat
  hi : Nat
  deriving DecidableEq, Repr

namespace CodeRange

/-- Ranges in order of their lower ends, those that overlap or touch as one. -/
def merge : List CodeRange → List CodeRange
  | [] => []
  | a :: rest => go a rest
where
  go (a : CodeRange) : List CodeRange → List CodeRange
    | [] => [a]
    | b :: rest => if b.lo ≤ a.hi + 1 then go ⟨a.lo, max a.hi b.hi⟩ rest else a :: go b rest

/-- The ranges in order and apart. -/
def normalize (ranges : List CodeRange) : List CodeRange :=
  merge (ranges.mergeSort fun a b => a.lo ≤ b.lo)

/-- What ranges in order leave out, from `lo` on. -/
def gaps (lo : Nat) : List CodeRange → List CodeRange
  | [] => if lo ≤ 0x10FFFF then [⟨lo, 0x10FFFF⟩] else []
  | a :: rest => if lo < a.lo then ⟨lo, a.lo - 1⟩ :: gaps (a.hi + 1) rest else gaps (a.hi + 1) rest

/-- The ranges between the edges of a set. -/
def ofEdges : List Nat → List CodeRange
  | lo :: hi :: rest => ⟨lo, hi - 1⟩ :: ofEdges rest
  | _ => []

/-- The letters that differ in case alone from one in the range. A long range goes without: it has
most of them itself. -/
def caseVariants (r : CodeRange) : List CodeRange :=
  if r.hi - r.lo < 256 then
    (List.range' r.lo (r.hi + 1 - r.lo)).flatMap fun n =>
      (PatternText.caseVariants (Char.ofNat n)).map fun c => ⟨c.toNat, c.toNat⟩
  else []

/-- The numbers from `lo` to `hi`, each as a first digit and `count` digits in base 64: rows of ranges
of digits in which every choice is one of the numbers. -/
def digitRows : Nat → Nat → Nat → List (List CodeRange)
  | 0, lo, hi => [[⟨lo, hi⟩]]
  | count + 1, lo, hi =>
    let unit := Nat.pow 64 (count + 1)
    let under (first lo hi : Nat) := (digitRows count lo hi).map (⟨first, first⟩ :: ·)
    let first := lo / unit
    let last := hi / unit
    if first = last then under first (lo % unit) (hi % unit)
    else
      let start := if lo % unit = 0 then first else first + 1
      let stop := if hi % unit = unit - 1 then last + 1 else last
      let before := if start = first then [] else under first (lo % unit) (unit - 1)
      let whole :=
        if start < stop then (digitRows count 0 (unit - 1)).map (⟨start, stop - 1⟩ :: ·) else []
      let after := if stop = last then under last 0 (hi % unit) else []
      before ++ whole ++ after

/-- The code points whose encodings have `count` bytes after the first, which starts at `mark`.
Surrogates have no encoding. -/
def encodedAlike : List (CodeRange × Nat × Nat) :=
  [(⟨0, 0x7F⟩, 0, 0), (⟨0x80, 0x7FF⟩, 1, 0xC0), (⟨0x800, 0xD7FF⟩, 2, 0xE0),
    (⟨0xE000, 0xFFFF⟩, 2, 0xE0), (⟨0x10000, 0x10FFFF⟩, 3, 0xF0)]

/-- The encodings of the code points in the range. The marks of the bytes after the first, all alike,
are left out. -/
def encodings (r : CodeRange) : List (List CodeRange) :=
  encodedAlike.flatMap fun (alike, count, mark) =>
    let lo := max r.lo alike.lo
    let hi := min r.hi alike.hi
    if lo ≤ hi then digitRows count (lo + mark * Nat.pow 64 count) (hi + mark * Nat.pow 64 count) else []

end CodeRange

/-- The blanks. -/
def blankRanges : List CodeRange :=
  [⟨0x09, 0x0D⟩, ⟨0x20, 0x20⟩, ⟨0x85, 0x85⟩, ⟨0xA0, 0xA0⟩, ⟨0x1680, 0x1680⟩, ⟨0x2000, 0x200A⟩,
    ⟨0x2028, 0x2029⟩, ⟨0x202F, 0x202F⟩, ⟨0x205F, 0x205F⟩, ⟨0x3000, 0x3000⟩]

def NamedClass.ranges : NamedClass → List CodeRange
  | word => CodeRange.ofEdges wordEdges.toList
  | digit => CodeRange.ofEdges decimalDigitEdges.toList
  | blank => blankRanges

namespace CharClass

/-- The characters of a class. -/
def ranges : CharClass → List CodeRange
  | nothing => []
  | range lo hi => [⟨lo.toNat, hi.toNat⟩]
  | named name => name.ranges
  | union a b => join a.ranges b.ranges
  | inter a b => meet a.ranges b.ranges
  | diff a b => meet a.ranges (CodeRange.gaps 0 b.ranges)
  | symmDiff a b => meet (join a.ranges b.ranges) (CodeRange.gaps 0 (meet a.ranges b.ranges))
  | compl a => CodeRange.gaps 0 a.ranges
  | anyCase a => join a.ranges (a.ranges.flatMap CodeRange.caseVariants)
where
  join (a b : List CodeRange) : List CodeRange := CodeRange.normalize (a ++ b)
  /-- What neither leaves out. -/
  meet (a b : List CodeRange) : List CodeRange :=
    CodeRange.gaps 0 (join (CodeRange.gaps 0 a) (CodeRange.gaps 0 b))

end CharClass

end PatternText.Source
