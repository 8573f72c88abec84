import PatternText.Expr.Basic
import PatternText.Number.Reading
import PatternText.Text.Quoted

/-! Expressions read from text. Operands are joined by operators, which are climbed by precedence: after
an operand those operators are taken that bind more tightly than the one before it, each with what is
on its right, and all are grouped to the left. An operand is a term with any number of signs before
it, of which only minus is kept; a term is a number, a variable, or an expression in parentheses. There
are no blanks. A tree higher than 256 is refused, since evaluation goes down one level at a time. -/

namespace PatternText

/-- Why a text is no expression. -/
inductive SyntaxError where
  | incomplete
  | unexpected (found : Char)
  /-- A variable that needs an index has none. -/
  | noIndex (variable_ : Char)
  | unclosed (want found : Char)
  | badNumber (text : String)
  | tooDeep
  deriving DecidableEq, Repr

namespace Expr

/-- The height above which a tree is refused. -/
def depthLimit : Nat := 256

end Expr

namespace SyntaxError

def message : SyntaxError → String
  | incomplete => "Incomplete expression"
  | unexpected found => "Unexpected character " ++ Quoted.ofChar found
  | noIndex name => "Expected '[' after " ++ Quoted.ofChar name
  | unclosed want found => "Expected " ++ Quoted.ofChar want ++ ", found " ++ Quoted.ofChar found
  | badNumber text => "Invalid number " ++ Quoted.ofString text
  | tooDeep => "Expression nests more than " ++ toString Expr.depthLimit ++ " levels deep"

end SyntaxError

namespace Expr

/-- What was read, and the text after it. -/
abbrev Reading := Except SyntaxError (Expr × List Char)

/-- A character of a number token. -/
def isNumberChar (c : Char) : Bool := c.isDigit || c == '.'

/-- The expression, once the text goes on with `want`, and the text after that. -/
def close (want : Char) : Expr × List Char → Reading
  | (e, c :: cs) => if c = want then .ok (e, cs) else .error (.unclosed want c)
  | (_, []) => .error .incomplete

/-- A number token, taken as far as digits and points go. -/
def readNumber (cs : List Char) : Reading :=
  let token := cs.takeWhile isNumberChar
  match readFloat? token with
  | some x => .ok (number x, cs.dropWhile isNumberChar)
  | none => .error (.badNumber (String.ofList token))

/-- The index in brackets after the name of a variable. -/
def readIndex (inner : List Char → Reading) (name : Char) : List Char → Reading
  | [] => .error .incomplete
  | c :: cs => if c = '[' then inner cs >>= close ']' else .error (.noIndex name)

/-- A term. `inner` reads what stands in brackets. -/
def readTerm (inner : List Char → Reading) : List Char → Reading
  | [] => .error .incomplete
  | c :: cs =>
    if c = '(' then inner cs >>= close ')'
    else if c = 'i' then .ok (counter, cs)
    else if c = 'N' then .ok (sourceCount, cs)
    else if c = 'j' then (readIndex inner c cs).map fun (e, rest) => (outerCounter e, rest)
    else if c = 'S' then (readIndex inner c cs).map fun (e, rest) => (sourceValue e, rest)
    else if isNumberChar c then readNumber (c :: cs)
    else .error (.unexpected c)

/-- A term with signs before it. -/
def readOperand (inner : List Char → Reading) : List Char → Reading
  | [] => readTerm inner []
  | c :: cs =>
    if c = '-' then (readOperand inner cs).map fun (e, rest) => (negate e, rest)
    else if c = '+' then readOperand inner cs
    else readTerm inner (c :: cs)

/-- The operators that bind more tightly than `least`, each with what is on its right, after `left`.
`right` reads an operand and the operators after it that bind more tightly than a given precedence.
Every operator takes a character, so the length of the text bounds `fuel`. -/
def climb (right : Nat → List Char → Reading) (least : Nat) : Nat → Expr × List Char → Reading
  | 0, _ => .error .incomplete
  | _ + 1, (left, []) => .ok (left, [])
  | fuel + 1, (left, c :: cs) =>
    match Operator.ofChar? c with
    | some op =>
      if op.precedence ≤ least then .ok (left, c :: cs)
      else do
        let (operand, rest) ← right op.precedence cs
        climb right least fuel (binary op left operand, rest)
    | none => .ok (left, c :: cs)

/-- An operand and the operators after it that bind more tightly than `least`. Every bracket and every
operator takes a character, so the length of the text bounds `fuel`. -/
def readBinary : Nat → Nat → List Char → Reading
  | 0, _, _ => .error .incomplete
  | fuel + 1, least, cs => do
    let left ← readOperand (readBinary fuel 0) cs
    climb (readBinary fuel) least (fuel + 1) left

/-- The expression that the whole text spells. -/
def parse (text : String) : Except SyntaxError Expr := do
  let cs := text.toList
  match ← readBinary (cs.length + 1) 0 cs with
  | (_, c :: _) => .error (.unexpected c)
  | (e, []) => if e.depth ≤ depthLimit then .ok e else .error .tooDeep

end Expr

/-- Why a written expression has no value. -/
inductive ExprError where
  | syntaxError (cause : SyntaxError)
  | nonNumeric
  deriving DecidableEq, Repr

/-- An expression as written, read once. What is wrong with it shows when its value is needed. -/
structure Expression where
  text : String
  parsed : Except SyntaxError Expr

namespace Expression

def ofText (text : String) : Expression := ⟨text, Expr.parse text⟩

instance : Inhabited Expression := ⟨ofText ""⟩

/-- The value of an expression that refers to no variable, if it has one. -/
def constant? (e : Expression) : Option Float :=
  match e.parsed with
  | .ok tree => if tree.isConstant then tree.evalFinite? {} else none
  | .error _ => none

/-- The finite value in a scope. -/
def eval (scope : Scope) (e : Expression) : Except ExprError Float :=
  match e.parsed with
  | .ok tree =>
    match tree.evalFinite? scope with
    | some x => .ok x
    | none => .error .nonNumeric
  | .error cause => .error (.syntaxError cause)

end Expression

end PatternText
