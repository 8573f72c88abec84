import PatternText.Text.Blank
import PatternText.Text.Quoted

/-! Grammars written as rules. A rule gives one production of the non-terminal it names; a production
is a row of tokens, of which those that name a non-terminal, in whatever rule, refer to it and all
others are sets of characters, negated by a leading tilde. Non-terminals are numbered in the order in
which rules first name them, and the first one starts. -/

namespace PatternText

/-- A test of one character, or the match of nothing. -/
inductive Terminal where
  | oneOf (chars : List Char)
  | noneOf (chars : List Char)
  | epsilon
  deriving DecidableEq, Repr

/-- A place of a production. -/
inductive Symbol where
  | terminal (terminal : Terminal)
  | nonTerminal (id : Nat)
  deriving DecidableEq, Repr

structure NonTerminal where
  name : String
  /-- The alternatives in the order of their rules. -/
  productions : List (List Symbol)
  deriving DecidableEq, Repr

/-- The non-terminals by number. -/
structure Grammar where
  nonTerminals : Array NonTerminal
  deriving Repr

namespace Terminal

/-- The characters of a token; a tilde before at least one more negates. -/
def ofToken : List Char → Terminal
  | '~' :: c :: rest => .noneOf (c :: rest)
  | chars => .oneOf chars

/-- Whether the terminal takes the character. The match of nothing takes none. -/
def accepts : Terminal → Char → Bool
  | oneOf chars, c => chars.contains c
  | noneOf chars, c => !chars.contains c
  | epsilon, _ => false

def toText : Terminal → String
  | oneOf chars => Quoted.ofString (String.ofList chars)
  | noneOf chars => "not one of: " ++ Quoted.ofString (String.ofList chars)
  | epsilon => "<epsilon>"

end Terminal

namespace Grammar

/-- The symbol a token stands for among the non-terminals named. -/
def symbolOfToken (names : List String) (token : List Char) : Symbol :=
  match names.idxOf? (String.ofList token) with
  | some id => .nonTerminal id
  | none => .terminal (.ofToken token)

/-- The symbols of a written production. Without tokens it matches nothing. -/
def symbolsOf (names : List String) (production : String) : List Symbol :=
  match splitBlank production.toList with
  | [] => [.terminal .epsilon]
  | tokens => tokens.map (symbolOfToken names)

/-- The grammar that the rules describe. -/
def ofRules (rules : List (String × String)) : Grammar :=
  let names := (rules.map Prod.fst).eraseDups
  let nonTerminal (name : String) : NonTerminal :=
    { name, productions := (rules.filter (·.1 == name)).map fun rule => symbolsOf names rule.2 }
  { nonTerminals := (names.map nonTerminal).toArray }

/-- The number of the start symbol. -/
def start (_ : Grammar) : Nat := 0

def size (g : Grammar) : Nat := g.nonTerminals.size

def isEmpty (g : Grammar) : Bool := g.nonTerminals.isEmpty

/-- The number of the non-terminal with this name. -/
def lookup (g : Grammar) (name : String) : Option Nat :=
  g.nonTerminals.findIdx? (·.name == name)

def nameOf (g : Grammar) (id : Nat) : String :=
  ((g.nonTerminals[id]?).map NonTerminal.name).getD ""

def symbolText (g : Grammar) : Symbol → String
  | .terminal t => t.toText
  | .nonTerminal id => g.nameOf id

/-- One line for a production, its name filled up to a column of 22 characters. -/
def productionLine (g : Grammar) (name : String) (production : List Symbol) : String :=
  let filler := String.ofList (List.replicate (22 - name.length) ' ')
  name ++ filler ++ ":" ++ String.join (production.map fun s => " " ++ g.symbolText s) ++ "\n"

/-- All productions, one on each line. -/
def toText (g : Grammar) : String :=
  String.join (g.nonTerminals.toList.flatMap fun nt => nt.productions.map (g.productionLine nt.name))

end Grammar

end PatternText
