import PatternText.CharSet

/-! The settings of a generator and the alphabets drawn from them. Digits, word characters and white
space are clipped to the base alphabet and their negations are complements against it, so every
alphabet is a part of the base. -/

namespace PatternText

/-- Alphabets as written specs, and the number that stands for "without limit". -/
structure Settings where
  base : List String := [" -~"]
  whitespace : List String := [" "]
  digit : List String := ["0-9"]
  word : List String := ["a-z", "A-Z", "0-9", "_"]
  upperBound : UInt64 := 10

/-- The alphabets that a single-character construct can name. -/
inductive Alphabet where
  | base
  | whitespace
  | nonWhitespace
  | digit
  | nonDigit
  | word
  | nonWord
  deriving DecidableEq, Repr

/-- The alphabets of one configuration, with its repetition limit. -/
structure Config where
  base : CharSet
  whitespace : CharSet
  digit : CharSet
  word : CharSet
  nonWhitespace : CharSet
  nonDigit : CharSet
  nonWord : CharSet
  upperBound : UInt64

namespace Config

/-- The alphabets that the settings describe. -/
def ofSettings (settings : Settings) : Config :=
  let base := CharSet.ofSpecs settings.base
  let whitespace := (CharSet.ofSpecs settings.whitespace).inter base
  let digit := (CharSet.ofSpecs settings.digit).inter base
  let word := (CharSet.ofSpecs settings.word).inter base
  { base, whitespace, digit, word
    nonWhitespace := base.diff whitespace
    nonDigit := base.diff digit
    nonWord := base.diff word
    upperBound := settings.upperBound }

/-- The set that a configuration gives to an alphabet. -/
def alphabet (config : Config) : Alphabet → CharSet
  | .base => config.base
  | .whitespace => config.whitespace
  | .nonWhitespace => config.nonWhitespace
  | .digit => config.digit
  | .nonDigit => config.nonDigit
  | .word => config.word
  | .nonWord => config.nonWord

end Config

end PatternText
