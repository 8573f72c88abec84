import PatternText.Number.Reading
import PatternText.Settings

/-! The arguments of the command. Options have a long name and some of them a letter too; a value
stands after its option as an argument of its own, after an equals sign, or right behind the letter.
Two hyphens alone end the options. -/

namespace PatternText.CommandLine

structure Arguments where
  pattern : String
  /-- The file whose lines are the ranges; the standard input without one. -/
  file : Option String := none
  /-- What the ranges are matched against for their source groups. -/
  original : String := ".*"
  base : List String := []
  whitespace : List String := []
  digit : List String := []
  word : List String := []
  upperBound : UInt64 := 10
  seed : Option UInt64 := none
  /-- How many ranges to generate without any input. -/
  count : Option UInt64 := none
  /-- Whether to print the parse tree and nothing else. -/
  tree : Bool := false

/-- The options that take a value. -/
inductive ValueOption where
  | original
  | base
  | whitespace
  | digit
  | word
  | upperBound
  | seed
  | count
  deriving DecidableEq, Repr

namespace ValueOption

def ofLongName? : String → Option ValueOption
  | "original" => some original
  | "base" => some base
  | "whitespace" => some whitespace
  | "digit" => some digit
  | "word" => some word
  | "upper-bound" => some upperBound
  | "seed" => some seed
  | "count" => some count
  | _ => none

def ofLetter? : Char → Option ValueOption
  | 'o' => some original
  | 'u' => some upperBound
  | 's' => some seed
  | 'n' => some count
  | _ => none

/-- Whether the option may be given more than once. -/
def isRepeatable : ValueOption → Bool
  | base | whitespace | digit | word => true
  | original | upperBound | seed | count => false

end ValueOption

/-- The arguments taken apart, each list in the order given. -/
structure Split where
  positional : List String := []
  values : List (ValueOption × String) := []
  /-- How often the tree was asked for. -/
  trees : Nat := 0

namespace Split

/-- Whether an argument looks like an option. A hyphen alone does not. -/
def isOptionLike (arg : String) : Bool :=
  match arg.toList with
  | '-' :: _ :: _ => true
  | _ => false

/-- The arguments with an option whose value, if it is missing, is the next one. -/
def addValue (split : Split) (option : ValueOption) (value : String) : Split :=
  { split with values := (option, value) :: split.values }

/-- What a long option stands for: a flag, or a value with the text behind an equals sign. -/
def ofLong? (body : List Char) : Option (Option ValueOption × Option String) :=
  let name := String.ofList (body.takeWhile (· != '='))
  match body.dropWhile (· != '='), name with
  | [], "tree" => some (none, none)
  | [], name => (ValueOption.ofLongName? name).map fun option => (some option, none)
  | _ :: value, name =>
    (ValueOption.ofLongName? name).map fun option => (some option, some (String.ofList value))

/-- What an option letter stands for, with the text right behind it. -/
def ofShort? (letter : Char) (behind : List Char) : Option (ValueOption × Option String) :=
  (ValueOption.ofLetter? letter).map fun option =>
    match behind with
    | [] => (option, none)
    | '=' :: value => (option, some (String.ofList value))
    | value => (option, some (String.ofList value))

/-- The arguments after those taken apart before; all lists are the other way round. An option whose
value is missing waits for it. -/
def addAll (split : Split) (waiting : Option ValueOption) : List String → Option Split
  | [] => if waiting.isNone then some split else none
  | arg :: args =>
    match waiting with
    | some option =>
      if isOptionLike arg then none else addAll (split.addValue option arg) none args
    | none =>
      match arg.toList with
      | ['-', '-'] => some { split with positional := args.reverse ++ split.positional }
      | '-' :: '-' :: body =>
        match ofLong? body with
        | none => none
        | some (none, _) => addAll { split with trees := split.trees + 1 } none args
        | some (some option, none) => addAll split (some option) args
        | some (some option, some value) => addAll (split.addValue option value) none args
      | '-' :: letter :: behind =>
        match ofShort? letter behind with
        | none => none
        | some (option, none) => addAll split (some option) args
        | some (option, some value) => addAll (split.addValue option value) none args
      | _ => addAll { split with positional := arg :: split.positional } none args

/-- The arguments taken apart, if every option is known and complete. -/
def ofList? (args : List String) : Option Split :=
  (addAll {} none args).map fun split =>
    { split with positional := split.positional.reverse, values := split.values.reverse }

/-- The values of an option in order. -/
def valuesOf (split : Split) (option : ValueOption) : List String :=
  split.values.filterMap fun v => if v.1 = option then some v.2 else none

/-- Whether no option is given twice that must not be. -/
def isUnrepeated (split : Split) : Bool :=
  split.trees ≤ 1 && split.values.all fun v =>
    v.1.isRepeatable || (split.valuesOf v.1).length ≤ 1

/-- The number given for an option, if the option is given; refused if it is no number. -/
def number? (split : Split) (option : ValueOption) : Option (Option UInt64) :=
  match split.valuesOf option with
  | [] => some none
  | value :: _ => (readWord? value.toList).map some

end Split

/-- The arguments of the command, none if they cannot be used. A number of ranges excludes a file. -/
def Arguments.ofList? (args : List String) : Option Arguments := do
  let split ← Split.ofList? args
  let upperBound ← split.number? .upperBound
  let seed ← split.number? .seed
  let count ← split.number? .count
  if !split.isUnrepeated then none
  else
    let make (pattern : String) (file : Option String) : Arguments :=
      { pattern, file, seed, count
        original := (split.valuesOf .original).headD ".*"
        base := split.valuesOf .base
        whitespace := split.valuesOf .whitespace
        digit := split.valuesOf .digit
        word := split.valuesOf .word
        upperBound := upperBound.getD 10
        tree := split.trees != 0 }
    match split.positional, count with
    | [pattern], _ => some (make pattern none)
    | [pattern, file], none => some (make pattern (some file))
    | _, _ => none

/-- The settings that the arguments describe. An alphabet without specs keeps its default. -/
def Arguments.settings (args : Arguments) : Settings :=
  let defaults : Settings := {}
  let specs (given default : List String) : List String := if given.isEmpty then default else given
  { base := specs args.base defaults.base
    whitespace := specs args.whitespace defaults.whitespace
    digit := specs args.digit defaults.digit
    word := specs args.word defaults.word
    upperBound := args.upperBound }

end PatternText.CommandLine
