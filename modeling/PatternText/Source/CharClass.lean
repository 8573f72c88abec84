import PatternText.Text.Blank
import PatternText.Text.DecimalDigit
import PatternText.Text.LetterCase
import PatternText.Text.WordChar

/-! Classes of characters in a matching pattern, built from ranges and named classes with the operations
of sets. A class that ignores case takes a character when it takes any letter that differs from it in
case alone. -/

namespace PatternText.Source

/-- The classes that have names. -/
inductive NamedClass where
  | word
  | digit
  | blank
  deriving DecidableEq, Repr

def NamedClass.contains : NamedClass → Char → Bool
  | word, c => isWordChar c
  | digit, c => isDecimalDigit c
  | blank, c => isBlank c

inductive CharClass where
  | nothing
  | range (lo hi : Char)
  | named (name : NamedClass)
  | union (a b : CharClass)
  | inter (a b : CharClass)
  | diff (a b : CharClass)
  /-- The characters in just one of the two. -/
  | symmDiff (a b : CharClass)
  | compl (a : CharClass)
  | anyCase (a : CharClass)
  deriving DecidableEq, Repr

namespace CharClass

def contains : CharClass → Char → Bool
  | nothing, _ => false
  | range lo hi, c => lo ≤ c && c ≤ hi
  | named name, c => name.contains c
  | union a b, c => a.contains c || b.contains c
  | inter a b, c => a.contains c && b.contains c
  | diff a b, c => a.contains c && !b.contains c
  | symmDiff a b, c => a.contains c != b.contains c
  | compl a, c => !a.contains c
  | anyCase a, c => a.contains c || (caseVariants c).any a.contains

/-- The class with the other cases of its letters, if case is ignored. -/
def withCase (ignoreCase : Bool) (a : CharClass) : CharClass :=
  if ignoreCase then anyCase a else a

/-- The class or its complement. -/
def negate (negated : Bool) (a : CharClass) : CharClass :=
  if negated then compl a else a

/-- The union of the classes. -/
def unions : List CharClass → CharClass
  | [] => nothing
  | [a] => a
  | a :: rest => union a (unions rest)

/-- The class of a single character. -/
def single (c : Char) : CharClass := range c c

/-- Every character, or every one but the line feed. -/
def any (lineFeed : Bool) : CharClass :=
  compl (if lineFeed then nothing else single '\n')

/-- The classes of ASCII characters that a class can name inside itself. -/
def ascii? (name : String) : Option CharClass :=
  let digits := range '0' '9'
  let letters := union (range 'A' 'Z') (range 'a' 'z')
  match name with
  | "alnum" => some (union digits letters)
  | "alpha" => some letters
  | "ascii" => some (range '\x00' '\x7f')
  | "blank" => some (union (single '\t') (single ' '))
  | "cntrl" => some (union (range '\x00' '\x1f') (single '\x7f'))
  | "digit" => some digits
  | "graph" => some (range '!' '~')
  | "lower" => some (range 'a' 'z')
  | "print" => some (range ' ' '~')
  | "punct" => some (unions [range '!' '/', range ':' '@', range '[' '`', range '{' '~'])
  | "space" => some (union (range '\t' '\r') (single ' '))
  | "upper" => some (range 'A' 'Z')
  | "word" => some (unions [digits, letters, single '_'])
  | "xdigit" => some (unions [digits, range 'A' 'F', range 'a' 'f'])
  | _ => none

end CharClass

end PatternText.Source
