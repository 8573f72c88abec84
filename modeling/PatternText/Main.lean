import PatternText.CommandLine.Session

/-! The command. Everything it does is decided by the session; this module reads, writes and exits. -/

open PatternText.CommandLine

/-- The text of a file or of the standard input. -/
private def readInput (file : Option String) : IO (Except ReadError String) :=
  try
    match file with
    | some path => return .ok (← IO.FS.readFile path)
    | none => return .ok (← (← IO.getStdin).readToEnd)
  catch
    | .noFileOrDirectory .. => return .error .missing
    | .inappropriateType _ code _ =>
      return .error (if code = 20 then .notDirectory else .directory)
    | .invalidArgument _ 36 _ => return .error .nameTooLong
    | e => return .error (.other (toString e))

def main (args : List String) : IO UInt32 := do
  let outcome ← match Arguments.ofList? args with
    | none => pure Outcome.misused
    | some arguments =>
      let freshSeed := UInt64.ofNat (← IO.rand 0 (UInt64.size - 1))
      match Session.start arguments freshSeed with
      | .over outcome => pure outcome
      | .reads file resume => resume <$> readInput file
  (← IO.getStdout).putStr outcome.stdout
  (← IO.getStderr).putStr outcome.stderr
  return outcome.code.toUInt32
