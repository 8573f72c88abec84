import PatternText.Number.Exact
import PatternText.Text.Blank

/-! Numbers read from text. A decimal is an optional sign, digits with at most one point among or
around them, and an optional exponent; its value is rounded once, from the exact quotient. A source
group counts as the number it spells after blanks at its ends are dropped, in base ten or with a prefix
in base sixteen, eight or two, and as zero when it spells none that is finite. -/

namespace PatternText

/-- Beyond all finite numbers. -/
def infinity : Float := 1.0 / 0.0

/-- The number nearest to the digits times a power of ten. Orders of magnitude that are sure to
overflow or to vanish are settled without computing the power. -/
def floatOfDecimal (negative : Bool) (digits : List Char) (exponent : Int) : Float :=
  let significant := digits.dropWhile (· == '0')
  let order := exponent + significant.length
  let value := Nat.ofDigitChars 10 significant 0
  if value = 0 || order < -400 then floatOfUnits negative 0 1
  else if 400 < order then if negative then -infinity else infinity
  else if 0 ≤ exponent then floatOfRatio negative (value * Nat.pow 10 exponent.toNat) 1
  else floatOfRatio negative value (Nat.pow 10 (-exponent).toNat)

/-- An exponent, if the text is one from its letter on; nothing at all is the exponent zero. -/
def readExponent? : List Char → Option Int
  | [] => some 0
  | c :: rest =>
    if c = 'e' || c = 'E' then
      match rest with
      | '-' :: digits => (unsigned? digits).map fun n => -(n : Int)
      | '+' :: digits => (unsigned? digits).map Int.ofNat
      | digits => (unsigned? digits).map Int.ofNat
    else none
where
  unsigned? (digits : List Char) : Option Nat :=
    if !digits.isEmpty && digits.all Char.isDigit then some (Nat.ofDigitChars 10 digits 0) else none

/-- The value of an unsigned decimal. -/
def readMagnitude? (negative : Bool) (cs : List Char) : Option Float :=
  let whole := cs.takeWhile Char.isDigit
  let (fraction, rest) :=
    match cs.dropWhile Char.isDigit with
    | '.' :: rest => (rest.takeWhile Char.isDigit, rest.dropWhile Char.isDigit)
    | rest => ([], rest)
  if whole.isEmpty && fraction.isEmpty then none
  else (readExponent? rest).map fun exponent =>
    floatOfDecimal negative (whole ++ fraction) (exponent - fraction.length)

/-- The value of a decimal, with or without a sign. -/
def readFloat? : List Char → Option Float
  | '-' :: rest => readMagnitude? true rest
  | '+' :: rest => readMagnitude? false rest
  | cs => readMagnitude? false cs

/-- The 64-bit word that decimal digits spell, with or without a plus before them. -/
def readWord? (cs : List Char) : Option UInt64 :=
  let digits := match cs with
    | '+' :: rest => rest
    | _ => cs
  if !digits.isEmpty && digits.all Char.isDigit then
    let value := Nat.ofDigitChars 10 digits 0
    if value < UInt64.size then some (UInt64.ofNat value) else none
  else none

/-- The value of a hexadecimal digit, letters of either case. -/
def hexDigitValue? (c : Char) : Option Nat :=
  if c.isDigit then some (c.toNat - '0'.toNat)
  else if 'a' ≤ c && c ≤ 'f' then some (c.toNat - 'a'.toNat + 10)
  else if 'A' ≤ c && c ≤ 'F' then some (c.toNat - 'A'.toNat + 10)
  else none

/-- The value of a digit in the given base, up to sixteen. -/
def digitValue? (base : Nat) (c : Char) : Option Nat :=
  (hexDigitValue? c).filter (· < base)

/-- The number that digits in the given base spell, if there are any and all are digits. -/
def readDigits? (base : Nat) (cs : List Char) : Option Nat :=
  if cs.isEmpty then none
  else cs.foldlM (fun value c => (digitValue? base c).map (base * value + ·)) 0

/-- The base that a prefix announces, and the text after the prefix. -/
def splitBasePrefix : List Char → Option (Nat × List Char)
  | '0' :: mark :: rest =>
    if mark = 'x' || mark = 'X' then some (16, rest)
    else if mark = 'o' || mark = 'O' then some (8, rest)
    else if mark = 'b' || mark = 'B' then some (2, rest)
    else none
  | _ => none

/-- The number that a source group counts as. In a base given by a prefix it has to fit a word. -/
def sourceValue (text : String) : Float :=
  let cs := trimBlank text.toList
  match splitBasePrefix cs with
  | some (base, digits) =>
    match readDigits? base digits with
    | some value => if value < UInt64.size then (UInt64.ofNat value).toFloat else 0
    | none => 0
  | none => ((readFloat? cs).filter Float.isFinite).getD 0

end PatternText
