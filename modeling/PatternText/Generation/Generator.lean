import PatternText.Generation.Evaluate
import PatternText.Program.Compile

/-! Generators: a program with a random source, the range that is generated next, and the memory of the
first range. All that can be done with one is an action; the memory and the random source are what one
action leaves to the next. -/

namespace PatternText

structure Generator (σ : Type) where
  program : Program
  /-- What stands for "without limit" in repetitions. -/
  upperBound : UInt64
  chooser : σ
  rangeIndex : UInt64 := 0
  sourceGroups : Array (Option String) := #[]
  firstGroups : Option (Array (Option String)) := none

/-- What can be done with a generator. -/
inductive Action where
  | generate
  /-- The next range is this one, and these are the groups of its source text. -/
  | setRange (index : UInt64) (groups : Array (Option String))
  | reseed (seed : UInt64)
  /-- The first range is forgotten. -/
  | resetFirst

namespace Generator

variable {σ : Type}

/-- What the current range provides. -/
def setting (g : Generator σ) : Setting where
  upperBound := g.upperBound
  rangeIndex := g.rangeIndex
  sourceGroups := g.sourceGroups
  sourceValues := g.sourceGroups.map fun group => group.elim 0 sourceValue

def setRange (g : Generator σ) (index : UInt64) (groups : Array (Option String)) : Generator σ :=
  { g with rangeIndex := index, sourceGroups := groups }

def resetFirst (g : Generator σ) : Generator σ :=
  { g with firstGroups := none }

/-- The text of the current range. Captured groups do not outlast it. -/
def generate [Chooser σ] (g : Generator σ) : Except GenerationError String × Generator σ :=
  let start : Progress σ := { chooser := g.chooser, captures := #[], firstGroups := g.firstGroups }
  let (result, p) := evalSteps g.setting [] "" g.program.steps start
  (result.mapError (⟨g.rangeIndex, ·⟩), { g with chooser := p.chooser, firstGroups := p.firstGroups })

theorem generate_of_evalSteps [Chooser σ] (g : Generator σ) {result : Except Fault String}
    {p : Progress σ} (h : evalSteps g.setting [] "" g.program.steps
      { chooser := g.chooser, captures := #[], firstGroups := g.firstGroups } = (result, p)) :
    g.generate = (result.mapError (⟨g.rangeIndex, ·⟩),
      { g with chooser := p.chooser, firstGroups := p.firstGroups }) := by
  rw [generate]
  dsimp only
  rw [h]

def reseed [Seeded σ] (g : Generator σ) (seed : UInt64) : Generator σ :=
  { g with chooser := Seeded.ofSeed seed }

/-- The generator of a program, from a seed. -/
def ofProgram [Seeded σ] (config : Config) (program : Program) (seed : UInt64) : Generator σ :=
  { program, upperBound := config.upperBound, chooser := Seeded.ofSeed seed }

/-- The generator of a pattern, from a seed. -/
def ofPattern (config : Config) (pattern : String) (seed : UInt64) :
    Except CompileError (Generator WordSource) :=
  (Program.ofPattern config pattern).map (ofProgram config · seed)

/-- An action, with the result of a generation. -/
def perform [Chooser σ] [Seeded σ] (g : Generator σ) :
    Action → Option (Except GenerationError String) × Generator σ
  | .generate =>
    let (result, g) := g.generate
    (some result, g)
  | .setRange index groups => (none, g.setRange index groups)
  | .reseed seed => (none, g.reseed seed)
  | .resetFirst => (none, g.resetFirst)

end Generator

end PatternText
