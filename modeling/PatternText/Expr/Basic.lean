import PatternText.Number.Exact

/-! Arithmetic expressions. Their variables are the loop counters around the place where they stand,
the index of the range that is generated, and the groups of its source text with the numbers these
count as. Values are 64-bit floating point numbers. -/

namespace PatternText

inductive Operator where
  | add
  | sub
  | mul
  | div
  | rem
  deriving DecidableEq, Repr

inductive Expr where
  | number (value : Float)
  /-- The innermost loop counter, or the range index outside every loop. -/
  | counter
  /-- The counter as many loops outwards as the operand says. -/
  | outerCounter (levels : Expr)
  /-- The number of source groups. -/
  | sourceCount
  /-- The number that a source group counts as. -/
  | sourceValue (place : Expr)
  | negate (operand : Expr)
  | binary (operator : Operator) (left right : Expr)
  deriving Repr

/-- What an expression can refer to. -/
structure Scope where
  /-- The counters of the enclosing loops, the innermost first. -/
  counters : List UInt64 := []
  rangeIndex : UInt64 := 0
  /-- The numbers that the source groups count as. -/
  sourceValues : Array Float := #[]

namespace Operator

def apply : Operator → Float → Float → Float
  | add, x, y => x + y
  | sub, x, y => x - y
  | mul, x, y => x * y
  | div, x, y => x / y
  | rem, x, y => floatRemainder x y

/-- The character that stands for the operator. -/
def symbol : Operator → Char
  | add => '+'
  | sub => '-'
  | mul => '*'
  | div => '/'
  | rem => '%'

/-- The operator that a character stands for. -/
def ofChar? : Char → Option Operator
  | '+' => some add
  | '-' => some sub
  | '*' => some mul
  | '/' => some div
  | '%' => some rem
  | _ => none

/-- How tightly the operator binds. -/
def precedence : Operator → Nat
  | add | sub => 1
  | mul | div | rem => 2

theorem eq_symbol_of_ofChar? {c : Char} {op : Operator} (h : ofChar? c = some op) : c = op.symbol := by
  unfold ofChar? at h
  split at h <;> cases h <;> rfl

theorem precedence_le_two (op : Operator) : op.precedence ≤ 2 := by
  cases op <;> decide

end Operator

namespace Expr

/-- The height of the tree; a single term has height one. -/
def depth : Expr → Nat
  | number _ | counter | sourceCount => 1
  | outerCounter e | sourceValue e | negate e => e.depth + 1
  | binary _ l r => max l.depth r.depth + 1

/-- Whether the expression refers to no variable. -/
def isConstant : Expr → Bool
  | number _ => true
  | counter | outerCounter _ | sourceCount | sourceValue _ => false
  | negate e => e.isConstant
  | binary _ l r => l.isConstant && r.isConstant

/-- The value in a scope. There is none where a counter or a source group is asked for that does not
exist. -/
def eval? (scope : Scope) : Expr → Option Float
  | number x => some x
  | counter => some (scope.counters.headD scope.rangeIndex).toFloat
  | outerCounter e => do
    let level ← indexValue? (← e.eval? scope)
    (scope.counters[level.toNat]?).map UInt64.toFloat
  | sourceCount => some (UInt64.ofNat scope.sourceValues.size).toFloat
  | sourceValue e => do
    let place ← indexValue? (← e.eval? scope)
    scope.sourceValues[place.toNat]?
  | negate e => (e.eval? scope).map fun x => -x
  | binary op l r => do
    let x ← l.eval? scope
    let y ← r.eval? scope
    some (op.apply x y)

/-- The value, if there is one and it is finite. -/
def evalFinite? (scope : Scope) (e : Expr) : Option Float :=
  (e.eval? scope).filter Float.isFinite

end Expr

end PatternText
