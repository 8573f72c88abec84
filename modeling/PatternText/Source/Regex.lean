import PatternText.Source.CharClass

/-! Matching patterns as trees. They describe the source text of a range: sequences, alternatives in
order of preference, repetitions that prefer more or fewer rounds, and groups that capture. -/

namespace PatternText.Source

/-- Conditions on a place that take no character. -/
inductive Anchor where
  | textStart
  | textEnd
  | lineStart
  | lineEnd
  | wordBoundary
  | noWordBoundary
  | wordStart
  | wordEnd
  deriving DecidableEq, Repr

inductive Regex where
  | empty
  | one (chars : CharClass)
  | anchor (anchor : Anchor)
  /-- A capturing group; groups count from one. -/
  | group (index : Nat) (body : Regex)
  | seq (front back : Regex)
  | alt (preferred other : Regex)
  /-- Between `least` and `most` rounds, more of them preferred if `greedy`. -/
  | rounds (least : Nat) (most : Option Nat) (greedy : Bool) (body : Regex)
  deriving Repr

namespace Regex

/-- The fewest characters in a match. -/
def leastLength : Regex → Nat
  | empty | anchor _ => 0
  | one _ => 1
  | group _ body => body.leastLength
  | seq front back => front.leastLength + back.leastLength
  | alt preferred other => min preferred.leastLength other.leastLength
  | rounds least _ _ body => least * body.leastLength

/-- Whether every match is empty. -/
def isAlwaysEmpty : Regex → Bool
  | empty | anchor _ => true
  | one _ => false
  | group _ body => body.isAlwaysEmpty
  | seq front back => front.isAlwaysEmpty && back.isAlwaysEmpty
  | alt preferred other => preferred.isAlwaysEmpty && other.isAlwaysEmpty
  | rounds _ _ _ body => body.isAlwaysEmpty

/-- The number of the last group, zero without groups. -/
def lastGroup : Regex → Nat
  | empty | one _ | anchor _ => 0
  | group index body => max index body.lastGroup
  | seq front back => max front.lastGroup back.lastGroup
  | alt preferred other => max preferred.lastGroup other.lastGroup
  | rounds _ _ _ body => body.lastGroup

/-- Repetition in its simplest form. More than one round of a body that is always empty adds nothing,
no round is the empty pattern, and just one is the body. -/
def repeated (least : Nat) (most : Option Nat) (greedy : Bool) (body : Regex) : Regex :=
  let (least, most) :=
    if body.isAlwaysEmpty then (min least 1, some (min (most.getD 1) 1)) else (least, most)
  if most = some 0 then empty
  else if least = 1 ∧ most = some 1 then body
  else rounds least most greedy body

/-- The patterns one after the other, without those that are empty. -/
def sequence : List Regex → Regex
  | [] => empty
  | r :: rs =>
    match r, sequence rs with
    | empty, back => back
    | front, empty => front
    | front, back => seq front back

/-- The patterns as alternatives, the first preferred. -/
def alternatives : List Regex → Regex
  | [] => empty
  | [r] => r
  | r :: rs => alt r (alternatives rs)

end Regex

end PatternText.Source
