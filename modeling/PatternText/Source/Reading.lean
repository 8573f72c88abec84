import PatternText.Source.Engine
import PatternText.Source.Regex

/-! Matching patterns read from text. What is not a pattern is refused: brackets or groups left open
or closed twice, a quantifier with nothing before it, counts in the wrong order or without an end,
ranges in the wrong order, references to groups, conditions on the text around, unknown flags and
unknown escapes, and patterns nested too deep. -/

namespace PatternText.Source

/-- The flags with one of them set or cleared. -/
def Flags.set? (flags : Flags) (on : Bool) : Char → Option Flags
  | 'i' => some { flags with ignoreCase := on }
  | 'm' => some { flags with multiLine := on }
  | 's' => some { flags with dotAll := on }
  | _ => none

namespace Regex

/-- Where reading has come to: what is left, how many groups have opened, and the flags. -/
structure Place where
  rest : List Char
  groups : Nat
  flags : Flags

/-- What an escaped character stands for. -/
inductive Escape where
  | char (c : Char)
  | named (name : NamedClass) (negated : Bool)
  | anchor (anchor : Anchor)

/-- The meaning of a character after a backslash. Angle brackets are the edges of words, all other
ASCII characters but letters and digits stand for themselves. -/
def escape? (c : Char) : Option Escape :=
  match c with
  | 'w' => some (.named .word false)
  | 'W' => some (.named .word true)
  | 'd' => some (.named .digit false)
  | 'D' => some (.named .digit true)
  | 's' => some (.named .blank false)
  | 'S' => some (.named .blank true)
  | 'b' => some (.anchor .wordBoundary)
  | 'B' => some (.anchor .noWordBoundary)
  | 'A' => some (.anchor .textStart)
  | 'z' => some (.anchor .textEnd)
  | '<' => some (.anchor .wordStart)
  | '>' => some (.anchor .wordEnd)
  | 'n' => some (.char '\n')
  | 't' => some (.char '\t')
  | 'r' => some (.char '\r')
  | 'a' => some (.char '\x07')
  | 'f' => some (.char '\x0c')
  | 'v' => some (.char '\x0b')
  | c => if c.toNat < 128 && !c.isAlphanum then some (.char c) else none

/-- What a class lists one by one. -/
inductive ClassItem where
  | char (c : Char)
  | named (name : NamedClass) (negated : Bool)

def ClassItem.chars : ClassItem → CharClass
  | char c => .single c
  | named name negated => .negate negated (.named name)

/-- The item at the front of a class body. -/
def readClassItem : List Char → Option (ClassItem × List Char)
  | [] => none
  | '\\' :: [] => none
  | '\\' :: c :: rest =>
    match escape? c with
    | some (.char c) => some (.char c, rest)
    | some (.named name negated) => some (.named name negated, rest)
    | some (.anchor _) | none => none
  | c :: rest => some (.char c, rest)

/-- The named ASCII class after an opening bracket inside a class: the name between colons, a
circumflex before it for all other characters. -/
def readAsciiClass? : List Char → Option (CharClass × List Char)
  | ':' :: rest =>
    let (negated, rest) := match rest with
      | '^' :: rest => (true, rest)
      | rest => (false, rest)
    match rest.dropWhile (· != ':') with
    | ':' :: ']' :: after =>
      (CharClass.ascii? (String.ofList (rest.takeWhile (· != ':')))).map fun chars =>
        (.negate negated chars, after)
    | _ => none
  | _ => none

/-- A class, or a part of one, and the depth of the constructions in it. -/
structure ClassPiece where
  chars : CharClass
  nesting : Nat := 0

/-- All of the pieces. -/
def ClassPiece.join (pieces : List ClassPiece) : ClassPiece :=
  { chars := .unions (pieces.map (·.chars))
    nesting := (pieces.map (·.nesting)).foldl max 0 + if pieces.length ≤ 1 then 0 else 1 }

/-- An operation that waits for its second piece, and the first. -/
structure PendingOperation where
  operation : CharClass → CharClass → CharClass
  first : ClassPiece

/-- The piece that a pending operation makes of the pieces after it. -/
def ClassPiece.close (ignoreCase : Bool) (pending : Option PendingOperation)
    (pieces : List ClassPiece) : ClassPiece :=
  let second := join pieces
  match pending with
  | none => second
  | some { operation, first } =>
    { chars := operation (first.chars.withCase ignoreCase) (second.chars.withCase ignoreCase)
      nesting := max first.nesting second.nesting + 1 }

/-- The class that the brackets around a piece make of it. -/
def ClassPiece.bracket (ignoreCase negated : Bool) (piece : ClassPiece) : ClassPiece :=
  { chars := .negate negated (piece.chars.withCase ignoreCase), nesting := piece.nesting + 1 }

/-- The front of a class, from the character after its opening bracket on: whether it is negated, and
its first pieces. Hyphens there, and a closing bracket that is the first character, stand for
themselves. -/
def readClassFront (cs : List Char) : Bool × List ClassPiece × List Char :=
  let (negated, cs) := match cs with
    | '^' :: rest => (true, rest)
    | cs => (false, cs)
  match cs.takeWhile (· == '-'), cs.dropWhile (· == '-') with
  | [], ']' :: rest => (negated, [{ chars := .single ']' }], rest)
  | hyphens, rest => (negated, hyphens.map fun c => { chars := .single c }, rest)

/-- The rest of a class up to its closing bracket, after the pieces before, and the text from there on.
A hyphen between two characters makes a range, one before the bracket stands for itself. Operations
take all pieces on either side and group to the left. Every piece takes a character, so the length of
the text bounds `fuel`. -/
def readClassBody (ignoreCase : Bool) :
    Nat → Option PendingOperation → List ClassPiece → List Char → Option (ClassPiece × List Char)
  | 0, _, _, _ => none
  | _ + 1, pending, pieces, ']' :: rest => some (.close ignoreCase pending pieces, rest)
  | fuel + 1, pending, pieces, '[' :: rest =>
    match readAsciiClass? rest with
    | some (chars, rest) => readClassBody ignoreCase fuel pending ({ chars } :: pieces) rest
    | none =>
      let (negated, front, rest) := readClassFront rest
      match readClassBody ignoreCase fuel none front rest with
      | some (inner, rest) =>
        readClassBody ignoreCase fuel pending (inner.bracket ignoreCase negated :: pieces) rest
      | none => none
  | fuel + 1, pending, pieces, '&' :: '&' :: rest =>
    readClassBody ignoreCase fuel (some ⟨.inter, .close ignoreCase pending pieces⟩) [] rest
  | fuel + 1, pending, pieces, '-' :: '-' :: rest =>
    readClassBody ignoreCase fuel (some ⟨.diff, .close ignoreCase pending pieces⟩) [] rest
  | fuel + 1, pending, pieces, '~' :: '~' :: rest =>
    readClassBody ignoreCase fuel (some ⟨.symmDiff, .close ignoreCase pending pieces⟩) [] rest
  | fuel + 1, pending, pieces, cs =>
    match readClassItem cs with
    | none => none
    | some (item, '-' :: rest) =>
      match rest with
      | [] => none
      | ']' :: _ | '-' :: _ =>
        readClassBody ignoreCase fuel pending ({ chars := item.chars } :: pieces) ('-' :: rest)
      | rest =>
        match item, readClassItem rest with
        | .char lo, some (.char hi, rest) =>
          if lo ≤ hi then
            readClassBody ignoreCase fuel pending ({ chars := .range lo hi } :: pieces) rest
          else none
        | _, _ => none
    | some (item, rest) =>
      readClassBody ignoreCase fuel pending ({ chars := item.chars } :: pieces) rest

/-- A class, from the character after its opening bracket on. -/
def readClass (ignoreCase : Bool) (cs : List Char) : Option (ClassPiece × List Char) :=
  let (negated, front, rest) := readClassFront cs
  (readClassBody ignoreCase (rest.length + 1) none front rest).map fun (piece, rest) =>
    (piece.bracket ignoreCase negated, rest)

/-- The count at the front of the text, decimal digits between any number of blanks, and the text
after it. Counts stay below 2 ^ 32. -/
def readCount (cs : List Char) : Option (Nat × List Char) :=
  let cs := cs.dropWhile isBlank
  let digits := cs.takeWhile Char.isDigit
  let n := Nat.ofDigitChars 10 digits 0
  if digits.isEmpty || UInt32.size ≤ n then none
  else some (n, (cs.dropWhile Char.isDigit).dropWhile isBlank)

/-- The bounds of a counted repetition, from the character after its opening brace on. It has no upper
bound if the comma stands right before the closing brace. -/
def readCounts (cs : List Char) : Option ((Nat × Option Nat) × List Char) :=
  match readCount cs with
  | some (n, '\x7d' :: rest) => some ((n, some n), rest)
  | some (n, ',' :: '\x7d' :: rest) => some ((n, none), rest)
  | some (n, ',' :: rest) =>
    match readCount rest with
    | some (m, '\x7d' :: rest) => if n ≤ m then some ((n, some m), rest) else none
    | _ => none
  | _ => none

/-- The bounds that a quantifier at the front of the text gives, if there is one; refused if it is not
written to its end. -/
def readQuantifier? : List Char → Option (Option (Nat × Option Nat) × List Char)
  | '*' :: rest => some (some (0, none), rest)
  | '+' :: rest => some (some (1, none), rest)
  | '?' :: rest => some (some (0, some 1), rest)
  | '\x7b' :: rest => (readCounts rest).map fun (bounds, rest) => (some bounds, rest)
  | rest => some (none, rest)

/-- The flags of a flag group, and the text from the character that ends them on. A hyphen, which may
come once and not last, turns what follows off; no flag comes twice. -/
def readFlags (flags : Flags) (on : Bool) (seen : List Char) : List Char → Option (Flags × List Char)
  | [] => none
  | c :: rest =>
    if c = ')' || c = ':' then
      if seen.head? = some '-' then none else some (flags, c :: rest)
    else if seen.contains c then none
    else if c = '-' then readFlags flags false (c :: seen) rest
    else (flags.set? on c).bind fun flags => readFlags flags on (c :: seen) rest

/-- What the front of a group says: whether it captures, the flags in it, and where its body starts.
A flag group without a body sets the flags for what follows. -/
inductive GroupFront where
  | capturing (rest : List Char)
  | plain (flags : Flags) (rest : List Char)
  | setFlags (flags : Flags) (rest : List Char)

/-- The front of a group, from the character after its opening parenthesis on. -/
def readGroupFront (flags : Flags) : List Char → Option GroupFront
  | '?' :: rest =>
    match readFlags flags true [] rest with
    | some (flags, ':' :: rest) => some (.plain flags rest)
    | some (flags, ')' :: after) => if rest.head? = some ')' then none else some (.setFlags flags after)
    | _ => none
  | rest => some (.capturing rest)

/-- A part of a pattern that has been read. -/
structure Piece where
  body : Regex
  /-- The depth of the constructions in it, those of several parts and those around a part. -/
  nesting : Nat := 0
  /-- Whether a quantifier may follow. Flags that are set take none. -/
  repeatable : Bool := true

/-- The piece one construction deeper. -/
def Piece.wrap (piece : Piece) (build : Regex → Regex) : Piece :=
  { body := build piece.body, nesting := piece.nesting + 1 }

/-- Pieces, the last first, as one. -/
def Piece.join (build : List Regex → Regex) (pieces : List Piece) : Piece :=
  { body := build (pieces.reverse.map (·.body))
    nesting := (pieces.map (·.nesting)).foldl max 0 + if pieces.length ≤ 1 then 0 else 1 }

/-- The piece of a single character. -/
def Piece.ofChar (flags : Flags) (c : Char) : Piece :=
  { body := one ((CharClass.single c).withCase flags.ignoreCase) }

/-- Reads alternatives up to a closing parenthesis or the end of the text, given those before and the
pieces of the one that is being read, the last first. Every piece takes a character, so the length of
the text bounds `fuel`. -/
def readRows : Nat → List Piece → List Piece → Place → Option (Piece × Place)
  | 0, _, _, _ => none
  | fuel + 1, rows, row, p =>
    match p.rest with
    | [] => some (.join alternatives (.join sequence row :: rows), p)
    | ')' :: _ => some (.join alternatives (.join sequence row :: rows), p)
    | '|' :: rest => readRows fuel (.join sequence row :: rows) [] { p with rest }
    | '(' :: rest =>
      match readGroupFront p.flags rest with
      | none => none
      | some (.setFlags flags rest) =>
        readRows fuel rows ({ body := empty, repeatable := false } :: row) { p with rest, flags }
      | some (.plain flags rest) =>
        match readRows fuel [] [] { p with rest, flags } with
        | some (body, { rest := ')' :: rest, groups, .. }) =>
          readRows fuel rows (body.wrap id :: row) { p with rest, groups }
        | _ => none
      | some (.capturing rest) =>
        let index := p.groups + 1
        match readRows fuel [] [] { p with rest, groups := index } with
        | some (body, { rest := ')' :: rest, groups, .. }) =>
          readRows fuel rows (body.wrap (group index) :: row) { p with rest, groups }
        | _ => none
    | '[' :: rest =>
      match readClass p.flags.ignoreCase rest with
      | some (piece, rest) =>
        readRows fuel rows ({ body := one piece.chars, nesting := piece.nesting } :: row) { p with rest }
      | none => none
    | '\\' :: rest =>
      match rest with
      | [] => none
      | c :: rest =>
        match escape? c with
        | none => none
        | some (.char c) => readRows fuel rows (.ofChar p.flags c :: row) { p with rest }
        | some (.named name negated) =>
          let chars := CharClass.negate negated (.named name)
          readRows fuel rows ({ body := one chars } :: row) { p with rest }
        | some (.anchor a) => readRows fuel rows ({ body := anchor a } :: row) { p with rest }
    | '.' :: rest => readRows fuel rows ({ body := one (.any p.flags.dotAll) } :: row) { p with rest }
    | '^' :: rest =>
      let a := if p.flags.multiLine then Anchor.lineStart else .textStart
      readRows fuel rows ({ body := anchor a } :: row) { p with rest }
    | '$' :: rest =>
      let a := if p.flags.multiLine then Anchor.lineEnd else .textEnd
      readRows fuel rows ({ body := anchor a } :: row) { p with rest }
    | c :: rest =>
      match readQuantifier? (c :: rest), row with
      | none, _ => none
      | some (none, _), _ => readRows fuel rows (.ofChar p.flags c :: row) { p with rest }
      | some (some (least, most), rest), piece :: row =>
        if !piece.repeatable then none
        else
          match rest with
          | '?' :: rest =>
            readRows fuel rows (piece.wrap (repeated least most false) :: row) { p with rest }
          | rest => readRows fuel rows (piece.wrap (repeated least most true) :: row) { p with rest }
      | some (some _, _), [] => none

/-- Patterns nested deeper than this are refused. -/
def nestingLimit : Nat := 250

/-- The pattern that the text spells, under these flags. -/
def read? (flags : Flags) (text : String) : Option Regex :=
  let cs := text.toList
  match readRows (cs.length + 1) [] [] { rest := cs, groups := 0, flags } with
  | some (piece, { rest := [], .. }) =>
    if piece.nesting ≤ nestingLimit then some piece.body else none
  | _ => none

end Regex

end PatternText.Source
