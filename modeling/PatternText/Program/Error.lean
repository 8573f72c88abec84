import PatternText.Grammar.Longest

/-! What can be wrong with a pattern, as causes and as messages. -/

namespace PatternText

/-- Numbers in a construct that do not fit it. -/
inductive NumberError where
  | minimumAboveUpperBound (minimum upperBound : UInt64) (construct : String)
  | boundsOutOfOrder (construct : String)
  | invalidNumber (text : String)
  deriving DecidableEq, Repr

/-- Why a pattern has no program. -/
inductive CompileError where
  | parse (cause : ParseError)
  | number (cause : NumberError)
  /-- A quantifier without a step before it. -/
  | missingOperand (construct : String)
  | tooDeep (limit : Nat)
  /-- A pattern of more bytes than the limit. -/
  | tooLong (length limit : Nat)
  deriving DecidableEq, Repr

namespace ParseError

def message (e : ParseError) : String :=
  "Unable to parse pattern, consumed: " ++ Quoted.ofString e.consumed ++
    ", unable to parse: " ++ Quoted.ofString e.remainder

end ParseError

namespace NumberError

def message : NumberError → String
  | minimumAboveUpperBound minimum upperBound construct =>
    "Invalid pattern, minimum (" ++ toString minimum.toNat ++ ") > upper bound (" ++
      toString upperBound.toNat ++ ") in: " ++ construct
  | boundsOutOfOrder construct => "Invalid pattern, numbers in wrong order in: " ++ construct
  | invalidNumber text => "Invalid number in pattern: " ++ text

end NumberError

namespace CompileError

def message : CompileError → String
  | parse cause => cause.message
  | number cause => cause.message
  | missingOperand construct => "Nothing to repeat before: " ++ construct
  | tooDeep limit => "Pattern nests more than " ++ toString limit ++ " levels deep"
  | tooLong length limit =>
    "Pattern is " ++ toString length ++ " bytes long, the limit is " ++ toString limit

/-- The message of the error behind this one, if there is one behind it. -/
def source? : CompileError → Option String
  | parse cause => some cause.message
  | number cause => some cause.message
  | missingOperand _ | tooDeep _ | tooLong _ _ => none

end CompileError

end PatternText
