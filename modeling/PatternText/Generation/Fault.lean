import PatternText.Program.Basic
import PatternText.Program.Error

/-! What can go wrong while the text of a range is generated, as causes and as messages. -/

namespace PatternText

/-- Why a range has no text. -/
inductive Fault where
  /-- A reference to a group that has not been entered. -/
  | unknownGroup (place : UInt64)
  /-- A reference to a source group that does not exist or took no part; `index` is its place. -/
  | unknownSourceGroup (construct index : String)
  | nonNumeric (expression : String)
  | badExpression (expression : String) (cause : SyntaxError)
  /-- A repetition count below zero. -/
  | invalidCount (construct : String) (count : Float)
  | number (cause : NumberError)

namespace Fault

def message : Fault → String
  | unknownGroup place => "Unknown group: \\" ++ toString place.toNat
  | unknownSourceGroup construct index =>
    "Unknown original text group: " ++ construct ++ " => \x7b\x7b" ++ index ++ "\x7d\x7d"
  | nonNumeric expression => "Error calculating: " ++ expression
  | badExpression expression cause => cause.message ++ " in " ++ expression
  | invalidCount construct count =>
    "Invalid repetition count (" ++ floatText count ++ ") in: " ++ construct
  | number cause => cause.message

end Fault

/-- A fault with the range in which it happened. -/
structure GenerationError where
  rangeIndex : UInt64
  fault : Fault

namespace GenerationError

def message (e : GenerationError) : String :=
  "range " ++ toString e.rangeIndex.toNat ++ ": " ++ e.fault.message

end GenerationError

/-- The value of a written expression, with what is wrong with it as a fault. -/
def Expression.value (scope : Scope) (e : Expression) : Except Fault Float :=
  match e.eval scope with
  | .ok x => .ok x
  | .error .nonNumeric => .error (.nonNumeric e.text)
  | .error (.syntaxError cause) => .error (.badExpression e.text cause)

end PatternText
