import PatternText.Source.CodeRange
import PatternText.Source.Regex

/-! The room that a pattern takes as an automaton on bytes, in which every round of a counted
repetition has states of its own. A pattern needs the automaton twice, for reading forward, where
groups have states, and for reading backward, where a class of characters shares less; each must keep
to ten mebibytes. -/

namespace PatternText.Source

/-- Bytes taken by the states for reading forward and for reading backward. -/
structure Footprint where
  forward : Nat
  backward : Nat
  deriving DecidableEq, Repr

namespace Footprint

/-- So many bytes in either direction. -/
def both (n : Nat) : Footprint := ⟨n, n⟩

instance : Add Footprint := ⟨fun a b => ⟨a.forward + b.forward, a.backward + b.backward⟩⟩

/-- The room of `n` copies. -/
def times (n : Nat) (a : Footprint) : Footprint := ⟨n * a.forward, n * a.backward⟩

/-- A state with one way out. -/
def state : Nat := 32

/-- A state with `n` ways out that take no byte. -/
def fork (n : Nat) : Nat := state + 4 * n

/-- A state with `n` ways out that take a byte each. -/
def choice (n : Nat) : Nat := state + 8 * n

/-- The length of the front that the rows have in common. -/
def commonFront : List CodeRange → List CodeRange → Nat
  | a :: as, b :: bs => if a = b then commonFront as bs + 1 else 0
  | _, _ => 0

/-- The number of ways in the tree of the rows, where a row goes on from the last place on the way of
the row before it. -/
def treeSize (previous : List CodeRange) : List (List CodeRange) → Nat
  | [] => 0
  | row :: rows => row.length - commonFront previous row + treeSize row rows

/-- The room of a class. Only ASCII characters fit into one state; other classes are trees of encodings,
entered by a fork when reading backward. -/
def ofRanges (ranges : List CodeRange) : Footprint :=
  match ranges with
  | [⟨lo, hi⟩] => if lo = hi then both (state * (Char.ofNat lo).utf8Size) else many
  | _ => many
where
  many : Footprint :=
    if ranges.all (·.hi < 0x80) then both (state + choice ranges.length)
    else
      let rows := ranges.flatMap CodeRange.encodings
      let ways := treeSize [] rows
      { forward := state + state * (ways + 1 - rows.length) + 8 * ways
        backward := state + fork rows.length + state * ways }

/-- The room of the tree of some words of at most so many bytes. -/
def wordTree : Nat → List (List UInt8) → Nat
  | 0, _ => 0
  | longest + 1, words =>
    let firsts := (words.filterMap List.head?).eraseDups
    let inner := firsts.map fun b =>
      wordTree longest (words.filterMap fun
        | c :: rest => if c = b then some rest else none
        | [] => none)
    match firsts with
    | [] => 0
    | [_] => fork 1 + state + inner.sum
    | _ => fork 1 + choice firsts.length + inner.sum

/-- The room of alternatives that are words. -/
def ofWords (words : List (List UInt8)) : Footprint :=
  let longest := (words.map List.length).foldl max 0
  { forward := state + wordTree longest words
    backward := state + wordTree longest (words.map List.reverse) }

/-- What there is to know about a pattern that may become one of several alternatives. -/
structure Measure where
  /-- The number of alternatives, and the room they take one by one. -/
  count : Nat
  sum : Footprint
  /-- The characters, if the alternatives are single characters. -/
  ranges? : Option (List CodeRange) := none
  /-- The alternatives, if they are words. -/
  words? : Option (List (List UInt8)) := none

/-- The room of a pattern: that of its one alternative, of one class, of a tree of words, or of all
alternatives behind a fork. -/
def Measure.total (m : Measure) : Footprint :=
  if m.count = 1 then m.sum
  else
    match m.ranges?, m.words? with
    | some ranges, _ => ofRanges (CodeRange.normalize ranges)
    | none, some words => ofWords words
    | none, none => both (state + fork m.count) + m.sum

/-- A pattern that is no choice between characters or words. -/
def Measure.plain (room : Footprint) : Measure := { count := 1, sum := room }

/-- The room of a loop that leaves out rounds beyond `least` of a body. -/
def ofRounds (least : Nat) (most : Option Nat) (isEmptyPossible : Bool) (body : Footprint) : Footprint :=
  match least, most with
  | 0, some 1 => both (fork 2 + state) + body
  | 0, none => if isEmptyPossible then both (fork 2 + fork 2 + state) + body else both (fork 2) + body
  | least, none => both (fork 2) + body.times least
  | least, some most =>
    if least = most then body.times least
    else
      both (if least = 0 then state + state else state) + body.times least +
        (both (fork 2) + body).times (most - least)

def measure : Regex → Measure
  | .empty => .plain (both state)
  | .one chars =>
    let ranges := chars.ranges
    let words? :=
      match ranges with
      | [⟨lo, hi⟩] => if lo = hi then some [(String.singleton (Char.ofNat lo)).toUTF8.toList] else none
      | _ => none
    { count := 1, sum := ofRanges ranges, ranges? := some ranges, words? }
  | .anchor _ => .plain (both state)
  | .group _ body => .plain (⟨state + state, 0⟩ + (measure body).total)
  | .seq front back =>
    let front := measure front
    let back := measure back
    let words? :=
      match front.words?, back.words? with
      | some [a], some [b] => some [a ++ b]
      | _, _ => none
    { count := 1, sum := front.total + back.total, words? }
  | .alt preferred other =>
    let preferred := measure preferred
    let other := measure other
    { count := preferred.count + other.count
      sum := preferred.sum + other.sum
      ranges? := preferred.ranges?.bind fun a => other.ranges?.map (a ++ ·)
      words? := preferred.words?.bind fun a => other.words?.map (a ++ ·) }
  | .rounds least most _ body =>
    .plain (ofRounds least most (body.leastLength == 0) (measure body).total)

/-- The room of a pattern with a loop in front that skips text, the whole match as a group, and an end
state. -/
def ofRegex (r : Regex) : Footprint :=
  both (fork 2 + state + choice 1 + state) + ⟨state + state, 0⟩ + (measure r).total

/-- Ten mebibytes. -/
def limit : Nat := 10 * Nat.pow 2 20

/-- Whether a pattern keeps to the limit in both directions. -/
def fits (r : Regex) : Bool :=
  let room := ofRegex r
  room.forward ≤ limit && room.backward ≤ limit

end Footprint

end PatternText.Source
