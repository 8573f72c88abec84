import PatternText.Generation.Generator

/-! Operations: one generator for many ranges in a row. Each range is generated with the groups of its
own original text, and a range that fails leaves the others alone. What is remembered of a first range
belongs to one run only. -/

namespace PatternText

/-- What became of a range. -/
structure RangeOutcome where
  index : UInt64
  result : Except GenerationError String

namespace RangeOutcome

/-- The generated text, or the original if there is none. -/
def textOr (o : RangeOutcome) (original : String) : String :=
  match o.result with
  | .ok text => text
  | .error _ => original

def error? (o : RangeOutcome) : Option GenerationError :=
  match o.result with
  | .ok _ => none
  | .error e => some e

end RangeOutcome

namespace Generator

variable {σ : Type}

/-- The outcomes of ranges with these originals, from the range `index` on, after those before, the
last first. `groupsOf` gives the source groups of an original. -/
def runFrom [Chooser σ] (groupsOf : String → Array (Option String)) (done : List RangeOutcome)
    (index : UInt64) : List String → Generator σ → List RangeOutcome × Generator σ
  | [], g => (done.reverse, g)
  | original :: originals, g =>
    let (result, g) := (g.setRange index (groupsOf original)).generate
    runFrom groupsOf ({ index, result } :: done) (index + 1) originals g

/-- The outcomes of all ranges of an operation, in order. -/
def run [Chooser σ] (groupsOf : String → Array (Option String)) (originals : List String)
    (g : Generator σ) : List RangeOutcome × Generator σ :=
  runFrom groupsOf [] 0 originals g.resetFirst

end Generator

end PatternText
