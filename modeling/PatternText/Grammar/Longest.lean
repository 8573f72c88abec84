import PatternText.Grammar.Basic
import PatternText.Grammar.Tree

/-! Longest-match parsing. At each place of a text a non-terminal matches by that one of its
productions which takes the most characters, the first declared among equals, and inside a production
every symbol contributes its own longest match: nothing is tried again. A place is known by the number
of characters that remain. A table holds what every non-terminal matches at every place; it is filled
from the end of the text backwards, so that a production looks up later places in finished rows and
only the symbols before its first character are settled within the row itself. -/

namespace PatternText

/-- A tree, and the number of characters that remain after what it took. -/
structure Match where
  tree : ParseTree
  rest : Nat
  deriving Repr

instance : Inhabited Match := ⟨⟨default, 0⟩⟩

/-- The text was not taken as a whole: the part that was, and the part after it. -/
structure ParseError where
  consumed : String
  remainder : String
  deriving DecidableEq, Repr

/-- What is known of the places behind the current one, and the characters from there on. -/
structure ParseTable where
  /-- The text from its end: the character before the last `k` ones is at `k`. -/
  chars : Array Char
  /-- For every number of remaining characters, the match of every non-terminal. -/
  rows : Array (Array (Option Match))

namespace ParseTable

/-- The matches found at the current place so far; none for a non-terminal not yet asked. -/
abbrev Memo := Array (Option (Option Match))

/-- The character at the place before `k` characters are left to take. -/
def charAt (t : ParseTable) (k : Nat) : Option Char :=
  if k = 0 then none else t.chars[k - 1]?

/-- The match of a non-terminal where `k` characters remain, from a finished row. -/
def lookup (t : ParseTable) (k id : Nat) : Option Match :=
  ((t.rows[k]?).bind (·[id]?)).join

/-- The match of a terminal where `k` characters remain. -/
def matchTerminal (t : ParseTable) (terminal : Terminal) (k : Nat) : Option Match :=
  match terminal with
  | .epsilon => some ⟨.leaf none, k⟩
  | terminal =>
    match t.charAt k with
    | some c => if terminal.accepts c then some ⟨.leaf (some c), k - 1⟩ else none
    | none => none

/-- The children that a row of symbols yields from the place with `k` remaining characters, after
those in `done`, last first. `here` settles the non-terminals at the current place. -/
def matchSymbols (t : ParseTable) (here : Nat → Memo → Option Match × Memo) :
    List Symbol → Nat → List ParseTree → Memo → Option (List ParseTree × Nat) × Memo
  | [], k, done, memo => (some (done.reverse, k), memo)
  | .terminal terminal :: symbols, k, done, memo =>
    match t.matchTerminal terminal k with
    | some m => matchSymbols t here symbols m.rest (m.tree :: done) memo
    | none => (none, memo)
  | .nonTerminal id :: symbols, k, done, memo =>
    let (found, memo) := if k = t.chars.size then here id memo else (t.lookup k id, memo)
    match found with
    | some m => matchSymbols t here symbols m.rest (m.tree :: done) memo
    | none => (none, memo)

/-- The longest match among productions, the first one of equal length. -/
def matchBest (t : ParseTable) (here : Nat → Memo → Option Match × Memo) (name : String) :
    List (List Symbol) → Option Match → Memo → Option Match × Memo
  | [], best, memo => (best, memo)
  | production :: productions, best, memo =>
    let (found, memo) := matchSymbols t here production t.chars.size [] memo
    let best :=
      match found, best with
      | none, best => best
      | some (children, rest), none => some ⟨.node name children, rest⟩
      | some (children, rest), some m =>
        if rest < m.rest then some ⟨.node name children, rest⟩ else some m
    matchBest t here name productions best memo

/-- The match of a non-terminal at the current place. A chain of non-terminals entered at one place
names each at most once unless it runs in a circle, so their number bounds `fuel`. -/
def matchHere (g : Grammar) (t : ParseTable) : Nat → Nat → Memo → Option Match × Memo
  | 0, _, memo => (none, memo)
  | fuel + 1, id, memo =>
    match memo.getD id none with
    | some known => (known, memo)
    | none =>
      match g.nonTerminals[id]? with
      | none => (none, memo)
      | some nt =>
        let (best, memo) := matchBest t (matchHere g t fuel) nt.name nt.productions none memo
        (best, memo.setIfInBounds id (some best))

/-- Settles the non-terminals from `id` on, `count` of them, at the current place. -/
def settle (g : Grammar) (t : ParseTable) : Nat → Nat → Memo → Memo
  | _, 0, memo => memo
  | id, count + 1, memo => settle g t (id + 1) count (matchHere g t g.size id memo).2

/-- The table with a row for the current place. -/
def addRow (g : Grammar) (t : ParseTable) : ParseTable :=
  let memo := settle g t 0 g.size (Array.replicate g.size none)
  { t with rows := t.rows.push (memo.map Option.join) }

/-- The table one character further to the front. -/
def push (g : Grammar) (t : ParseTable) (c : Char) : ParseTable :=
  addRow g { t with chars := t.chars.push c }

/-- The table of a whole text. -/
def ofText (g : Grammar) (cs : List Char) : ParseTable :=
  cs.reverse.foldl (push g) (addRow g ⟨#[], #[]⟩)

end ParseTable

/-- The tree of a text by the start symbol of the grammar, if it takes the whole text. -/
def parse (g : Grammar) (text : String) : Except ParseError ParseTree :=
  let cs := text.toList
  match (ParseTable.ofText g cs).lookup cs.length g.start with
  | some m =>
    if m.rest = 0 then .ok m.tree
    else
      let taken := cs.length - m.rest
      .error ⟨String.ofList (cs.take taken), String.ofList (cs.drop taken)⟩
  | none => .error ⟨"", text⟩

end PatternText
