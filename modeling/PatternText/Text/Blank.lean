/-! Blank characters, the twenty-five that Unicode gives the property White_Space. A source group is
stripped of them before it is read as a number, and a written production is cut into tokens at them. -/

namespace PatternText

/-- Whether `c` is white space. -/
def isBlank (c : Char) : Bool :=
  let n := c.toNat
  (0x09 ≤ n && n ≤ 0x0D) || n == 0x20 || n == 0x85 || n == 0xA0 || n == 0x1680 ||
    (0x2000 ≤ n && n ≤ 0x200A) || n == 0x2028 || n == 0x2029 || n == 0x202F || n == 0x205F ||
    n == 0x3000

/-- The text without the blanks at its two ends. -/
def trimBlank (cs : List Char) : List Char :=
  ((cs.dropWhile isBlank).reverse.dropWhile isBlank).reverse

/-- The maximal runs of non-blank characters, in order. -/
def splitBlank (cs : List Char) : List (List Char) :=
  go [] cs
where
  go (current : List Char) : List Char → List (List Char)
    | [] => close current []
    | c :: rest => if isBlank c then close current (go [] rest) else go (c :: current) rest
  close (current : List Char) (words : List (List Char)) : List (List Char) :=
    if current.isEmpty then words else current.reverse :: words

end PatternText
