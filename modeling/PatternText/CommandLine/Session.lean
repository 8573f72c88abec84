import PatternText.CommandLine.Arguments
import PatternText.Operation
import PatternText.Source.Matcher
import PatternText.Text.Lines

/-! What the command does with its arguments. It prints a parse tree, or generates a number of ranges
without input, or replaces the lines of its input. Reading the input is left to the caller: a session
is either over or waits for a text. Faults of single ranges go to the error output and make the exit
code one, anything else that goes wrong ends the session with the code two. -/

namespace PatternText.CommandLine

/-- What the command leaves behind. -/
structure Outcome where
  code : UInt8
  stdout : String
  stderr : String
  deriving Repr

/-- Why an input cannot be read. -/
inductive ReadError where
  | missing
  | directory
  /-- Something that is no directory is used as one. -/
  | notDirectory
  | nameTooLong
  | other (text : String)

def ReadError.message : ReadError → String
  | missing => "No such file or directory (os error 2)"
  | directory => "Is a directory (os error 21)"
  | notDirectory => "Not a directory (os error 20)"
  | nameTooLong => "File name too long (os error 36)"
  | other text => text

/-- What ends a session. -/
inductive Failure where
  | compile (cause : CompileError)
  | emptyBase
  | unreadable (file : Option String) (cause : ReadError)
  | badOriginal (cause : Source.PatternError)

/-- The report of a failure: its message and those of the errors behind it. The report of a matching
pattern stays open at its end, for the cause. -/
def Failure.report : Failure → String
  | compile cause => ": ".intercalate (cause.message :: cause.source?.toList) ++ "\n"
  | emptyBase => "The base alphabet is empty\n"
  | unreadable file cause => "Failed to read " ++ file.getD "stdin" ++ ": " ++ cause.message ++ "\n"
  | badOriginal cause => cause.message

/-- A session that is over, or one that goes on with the text of a file or of the standard input. -/
inductive Session where
  | over (outcome : Outcome)
  | reads (file : Option String) (resume : Except ReadError String → Outcome)

namespace Outcome

def failed (cause : Failure) : Outcome := ⟨2, "", cause.report⟩

/-- What is left when the arguments cannot be used. -/
def misused : Outcome := ⟨2, "", "Usage: pattern-text [OPTIONS] <GENERATOR> [FILE]\n"⟩

/-- The outcome with one more line. -/
def print (o : Outcome) (line : String) : Outcome :=
  { o with stdout := o.stdout ++ line ++ "\n" }

/-- The outcome with one more fault. -/
def complain (o : Outcome) (e : GenerationError) : Outcome :=
  { o with code := 1, stderr := o.stderr ++ e.message ++ "\n" }

/-- The outcome after a range generated without input: its text, or its fault. -/
def addResult (o : Outcome) : Except GenerationError String → Outcome
  | .ok text => o.print text
  | .error e => o.complain e

/-- The outcome after a line of the input: its replacement, or the line itself and the fault. -/
def addReplaced (o : Outcome) (outcome : RangeOutcome) (original : String) : Outcome :=
  let o := o.print (outcome.textOr original)
  match outcome.error? with
  | some e => o.complain e
  | none => o

end Outcome

/-- Generates `count` ranges from `index` on, none of them with source groups. -/
def generateFrom {σ : Type} [Chooser σ] (o : Outcome) (index : UInt64) :
    Nat → Generator σ → Outcome
  | 0, _ => o
  | count + 1, g =>
    let (result, g) := (g.setRange index #[]).generate
    generateFrom (o.addResult result) (index + 1) count g

/-- Generates so many ranges. -/
def generateCount {σ : Type} [Chooser σ] (count : UInt64) (g : Generator σ) : Outcome :=
  generateFrom ⟨0, "", ""⟩ 0 count.toNat g

/-- Replaces the lines. -/
def replaceLines {σ : Type} [Chooser σ] (groupsOf : String → Array (Option String))
    (lines : List String) (g : Generator σ) : Outcome :=
  let (outcomes, _) := g.run groupsOf lines
  (outcomes.zip lines).foldl (fun o pair => o.addReplaced pair.1 pair.2) ⟨0, "", ""⟩

/-- The outcome of a session with a generator, once the input is there. -/
def finish {σ : Type} [Chooser σ] (engine : Source.Engine) (args : Arguments) (g : Generator σ) :
    Except ReadError String → Outcome
  | .error cause => .failed (.unreadable args.file cause)
  | .ok text =>
    match Source.Matcher.read engine args.original with
    | .error cause => .failed (.badOriginal cause)
    | .ok matcher => replaceLines matcher.captures (splitLines text) g

/-- The session that the arguments ask for. Without a seed of its own it takes the one given. -/
def Session.startWith (engine : Source.Engine) (args : Arguments) (freshSeed : UInt64) : Session :=
  if args.tree then
    match patternTree args.pattern with
    | .ok tree => .over ⟨0, tree.toText, ""⟩
    | .error cause => .over (.failed (.compile cause))
  else
    let config := Config.ofSettings args.settings
    if config.base.isEmpty then .over (.failed .emptyBase)
    else
      match Generator.ofPattern config args.pattern (args.seed.getD freshSeed) with
      | .error cause => .over (.failed (.compile cause))
      | .ok g =>
        match args.count with
        | some count => .over (generateCount count g)
        | none => .reads args.file (finish engine args g)

/-- The session with the engine of this project. -/
def Session.start (args : Arguments) (freshSeed : UInt64) : Session :=
  startWith Source.Machine.engine args freshSeed

end PatternText.CommandLine
