/-! Source groups. The text of a range is matched against a pattern, and what its groups took is what
generation can refer to. Reading such patterns and searching texts for them is left to an engine, of
which no more is asked here than the first match with its groups and the row of all matches. A pattern
may start with a flag group of its own: `g` lists all matches in place of one match with its groups,
the other flags are those of the engine. A flag group with any other letter is part of the pattern. -/

namespace PatternText.Source

/-- What changes the meaning of a pattern from a place on. -/
structure Flags where
  ignoreCase : Bool := false
  /-- Whether the line anchors hold at line breaks. -/
  multiLine : Bool := false
  /-- Whether the dot takes a line feed. -/
  dotAll : Bool := false
  deriving DecidableEq, Repr

/-- What a pattern finds in texts. -/
structure Searcher where
  /-- The first match with its groups behind it, none for a group that took no part. -/
  firstMatch? : String → Option (Array (Option String))
  /-- The matches from left to right, none of which overlap. -/
  allMatches : String → Array String

/-- What reads patterns. -/
abbrev Engine := Flags → String → Option Searcher

/-- Where the searchers of an engine find no first match they find no match at all. -/
def Engine.Coherent (engine : Engine) : Prop :=
  ∀ flags pattern searcher, engine flags pattern = some searcher →
    ∀ text, searcher.firstMatch? text = none → searcher.allMatches text = #[]

structure Matcher where
  searcher : Searcher
  isGlobal : Bool

/-- A text that is no matching pattern. -/
structure PatternError where
  pattern : String
  deriving DecidableEq, Repr

def PatternError.message (e : PatternError) : String :=
  "Invalid original text pattern: " ++ e.pattern

namespace Matcher

/-- The flags that a pattern starts with, and the pattern after them. -/
def splitFlags (pattern : List Char) : List Char × List Char :=
  match pattern with
  | '(' :: '?' :: rest =>
    let flags := rest.takeWhile (· != ')')
    match rest.dropWhile (· != ')') with
    | ')' :: body =>
      if !flags.isEmpty && flags.all (['g', 'i', 'm', 's'].contains ·) then (flags, body)
      else ([], pattern)
    | _ => ([], pattern)
  | _ => ([], pattern)

/-- The matcher of a pattern. -/
def read (engine : Engine) (pattern : String) : Except PatternError Matcher :=
  let (letters, body) := splitFlags pattern.toList
  let flags : Flags :=
    { ignoreCase := letters.contains 'i'
      multiLine := letters.contains 'm'
      dotAll := letters.contains 's' }
  match engine flags (String.ofList body) with
  | some searcher => .ok { searcher, isGlobal := letters.contains 'g' }
  | none => .error ⟨pattern⟩

/-- The source groups of a text: the match and its groups, or every match. Without a match there are
none. -/
def captures (m : Matcher) (text : String) : Array (Option String) :=
  if m.isGlobal then (m.searcher.allMatches text).map some
  else (m.searcher.firstMatch? text).getD #[]

end Matcher

end PatternText.Source
