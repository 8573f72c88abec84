import PatternText.Text.Printing

/-! Quoted text, as error messages and printed trees show it. A backslash goes before the backslash
and before the mark that encloses the text, tab, carriage return, line feed and the null character
have letters of their own, and what does not print is written as its code point in hexadecimal between
braces. Each character keeps a written form that can be told from all others, so quoting loses
nothing. -/

namespace PatternText.Quoted

/-- The lower-case hexadecimal digits of `n`, without leading zeros. -/
def hexDigits (n : Nat) : List Char :=
  Nat.toDigits 16 n

/-- The written form of `c` inside text enclosed by `mark`. -/
def escape (mark c : Char) : List Char :=
  if c = '\t' then ['\\', 't']
  else if c = '\r' then ['\\', 'r']
  else if c = '\n' then ['\\', 'n']
  else if c = '\x00' then ['\\', '0']
  else if c = '\\' || c = mark then ['\\', c]
  else if isPrinting c then [c]
  else ['\\', 'u', '\x7b'] ++ hexDigits c.toNat ++ ['\x7d']

/-- The characters of `cs`, each in its written form. -/
def encode (mark : Char) (cs : List Char) : List Char :=
  cs.flatMap (escape mark)

/-- `s` between double quotes. -/
def ofString (s : String) : String :=
  String.ofList ('"' :: encode '"' s.toList ++ ['"'])

/-- `c` between single quotes. -/
def ofChar (c : Char) : String :=
  String.ofList ('\'' :: escape '\'' c ++ ['\''])

end PatternText.Quoted
