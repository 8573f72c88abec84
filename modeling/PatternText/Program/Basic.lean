import PatternText.CharSet
import PatternText.Expr.Reading
import PatternText.Number.Format

/-! Programs: what a pattern means for generation. A program is a row of steps, each of which yields a
text; groups, repetitions and alternations hold steps of their own, and how deep they nest is the depth
of the program. -/

namespace PatternText

/-- How often a step is repeated. -/
inductive Bounds where
  | zeroOrMore
  | zeroOrOne
  | oneOrMore
  | exactly (count : Expression)
  | atLeast (least : Expression)
  | between (least most : Expression)

/-- How a source reference relates to the groups of the first range. -/
inductive FirstModifier where
  /-- The group of the first range in place of the current one. -/
  | first
  /-- The current group without the one of the first range at its front. -/
  | minusFirst
  deriving DecidableEq, Repr

inductive Step where
  | literal (text : String)
  /-- A character drawn from the set, nothing if it is empty. -/
  | oneOf (chars : CharSet)
  /-- A capturing group. Its number tells it from the other groups of the program only. -/
  | group (id : Nat) (body : List Step)
  /-- The text last captured by the group that was entered at this place, counted from one. -/
  | backref (place : UInt64)
  | repetition (step : Step) (bounds : Bounds) (construct : String)
  /-- A group of the source text. -/
  | source (place : Expression) (modifier : Option FirstModifier) (construct : String)
  /-- A computed number. -/
  | numeric (value : Expression) (format : NumberFormat)
  | alternation (branches : List (List Step))

structure Program where
  steps : List Step
  /-- The number of groups anywhere in the steps. -/
  groupCount : Nat

mutual

/-- The levels of groups, repetitions and alternations inside one another. -/
def Step.depth : Step → Nat
  | .group _ body => stepsDepth 0 body + 1
  | .repetition step _ _ => step.depth + 1
  | .alternation branches => branchesDepth 0 branches + 1
  | .literal _ | .oneOf _ | .backref _ | .source _ _ _ | .numeric _ _ => 0

/-- The greatest depth in a row of steps, at least the one given. -/
def stepsDepth (deepest : Nat) : List Step → Nat
  | [] => deepest
  | step :: steps => stepsDepth (max deepest step.depth) steps

/-- The greatest depth in rows of steps, at least the one given. -/
def branchesDepth (deepest : Nat) : List (List Step) → Nat
  | [] => deepest
  | branch :: branches => branchesDepth (max deepest (stepsDepth 0 branch)) branches

end

/-- The levels of steps inside one another in the whole program. -/
def Program.depth (p : Program) : Nat := stepsDepth 0 p.steps

end PatternText
