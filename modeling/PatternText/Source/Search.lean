import PatternText.Source.Machine
import Std.Data.HashSet

/-! Searching a text with a machine. Ways through the machine are tried in order of preference, and
from each place of the text on before the next place, so the match found is the leftmost one and the
preferred one there. A pair of state and place that was tried once is never tried again: it leads
nowhere, or the search would be over. Places count the characters before them. -/

namespace PatternText.Source

/-- The places noted in the slots, two for each group. -/
abbrev Slots := Array (Option Nat)

/-- A state to be tried at a place, with the slots up to there. -/
structure Attempt where
  state : Nat
  place : Nat
  slots : Slots

namespace Machine

/-- Whether a word character stands at the place. -/
def isWordAt (text : Array Char) (place : Nat) : Bool :=
  (text[place]?).any isWordChar

/-- Whether a word character stands before the place. -/
def isWordBefore (text : Array Char) (place : Nat) : Bool :=
  0 < place && isWordAt text (place - 1)

def holds (text : Array Char) (place : Nat) : Anchor → Bool
  | .textStart => place == 0
  | .textEnd => place == text.size
  | .lineStart => place == 0 || text[place - 1]? == some '\n'
  | .lineEnd => place == text.size || text[place]? == some '\n'
  | .wordBoundary => isWordBefore text place != isWordAt text place
  | .noWordBoundary => isWordBefore text place == isWordAt text place
  | .wordStart => !isWordBefore text place && isWordAt text place
  | .wordEnd => isWordBefore text place && !isWordAt text place

/-- What follows from an attempt, the preferred first; nothing if the state is the last one. -/
def follow (m : Machine) (text : Array Char) (a : Attempt) : Option (List Attempt) :=
  match m.states.getD a.state .done with
  | .done => none
  | .take chars next =>
    match text[a.place]? with
    | some c => some (if chars.contains c then [{ a with state := next, place := a.place + 1 }] else [])
    | none => some []
  | .check anchor next => some (if holds text a.place anchor then [{ a with state := next }] else [])
  | .fork preferred other => some [{ a with state := preferred }, { a with state := other }]
  | .mark slot next =>
    some [{ a with state := next, slots := a.slots.setIfInBounds slot (some a.place) }]

/-- The slots at the end of the first way that gets there, and the pairs tried. Each pair is followed
once and leads to two others at most, which bounds `fuel`. -/
def explore (m : Machine) (text : Array Char) :
    Nat → List Attempt → Std.HashSet Nat → Option Slots × Std.HashSet Nat
  | 0, _, tried => (none, tried)
  | _ + 1, [], tried => (none, tried)
  | fuel + 1, a :: attempts, tried =>
    let key := a.state * (text.size + 1) + a.place
    if tried.contains key then explore m text fuel attempts tried
    else
      match m.follow text a with
      | none => (some a.slots, tried)
      | some next => explore m text fuel (next ++ attempts) (tried.insert key)

/-- The leftmost match that starts at `place` or at one of the `count` places after it. -/
def searchFrom (m : Machine) (text : Array Char) :
    Nat → Nat → Std.HashSet Nat → Option Slots
  | place, count, tried =>
    let fuel := 2 * m.states.size * (text.size + 1) + 2
    let start : Attempt :=
      { state := m.start, place, slots := Array.replicate (2 * m.groupCount) none }
    match m.explore text fuel [start] tried, count with
    | (some slots, _), _ => some slots
    | (none, _), 0 => none
    | (none, tried), count + 1 => searchFrom m text (place + 1) count tried

/-- The leftmost match that does not start before `place`. -/
def search (m : Machine) (text : Array Char) (place : Nat) : Option Slots :=
  if place ≤ text.size then m.searchFrom text place (text.size - place) ∅ else none

/-- The part of the text between the two slots of a group, if it took part. -/
def groupText (text : Array Char) (slots : Slots) (index : Nat) : Option String :=
  match slots.getD (2 * index) none, slots.getD (2 * index + 1) none with
  | some lo, some hi => some (String.ofList (text.extract lo hi).toList)
  | _, _ => none

/-- The place where a match ends, and whether it is empty. -/
def matchEnd (slots : Slots) : Nat × Bool :=
  let lo := (slots.getD 0 none).getD 0
  let hi := (slots.getD 1 none).getD 0
  (hi, lo == hi)

/-- The matches from `place` on, left to right and apart from each other. An empty match where the
last match ended is passed over for one that starts later. Every match ends later than the one
before, so the length of the text bounds `fuel`. -/
def searchAll (m : Machine) (text : Array Char) : Nat → Nat → Option Nat → List Slots
  | 0, _, _ => []
  | fuel + 1, place, last =>
    let found := m.search text place
    let found :=
      match found.map matchEnd with
      | some (hi, true) => if last = some hi then m.search text (place + 1) else found
      | _ => found
    match found with
    | none => []
    | some slots =>
      let hi := (matchEnd slots).1
      slots :: searchAll m text fuel hi (some hi)

end Machine

end PatternText.Source
