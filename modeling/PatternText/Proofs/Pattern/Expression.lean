import PatternText.Program.Basic
import PatternText.Proofs.Pattern.Parts

/-! Expressions and modifiers in patterns. An expression text is a row of characters of its own
alphabet, which has neither the comma, the colon nor the closing brace, so each of these ends its
longest match. The same holds of the digits of a modifier and its closing parenthesis. -/

namespace PatternText

namespace Part

open Grammar PatternText.Symbol

variable {p q : Part} {cs rest mid : List Char} {tree : ParseTree} {trees : List ParseTree}

/-! ### Repeated parts -/

/-- The tree of a part that repeats another one: each node holds one item and the rest of them. -/
def rowTree (p : Part) : List ParseTree → ParseTree
  | [] => p.node [.leaf none]
  | tree :: trees => p.node [tree, p.rowTree trees]

section Repeated

variable (hp : p.productions = [[q.ref, p.ref], [epsilon]])
include hp

theorem reads_row_nil (h : q.reads cs = none) : p.reads cs = some (p.rowTree [], cs) :=
  reads_of_optional_none hp (row_ref_none h)

theorem reads_row_cons (h : q.reads cs = some (tree, mid))
    (htail : p.reads mid = some (p.rowTree trees, rest)) :
    p.reads cs = some (p.rowTree (tree :: trees), rest) := by
  refine reads_of_optional hp ?_
  rw [row_ref h, row_ref htail]
  rfl

/-- Items that end by themselves are read one after the other, up to where no further one begins. -/
theorem reads_items {α : Type} {item : α → ParseTree} (text : α → List Char) (items : List α)
    (hitems : ∀ a ∈ items, ∀ cs, q.reads (text a ++ cs) = some (item a, cs))
    (hstop : q.reads rest = none) :
    p.reads (items.flatMap text ++ rest) = some (p.rowTree (items.map item), rest) := by
  induction items with
  | nil => exact reads_row_nil hp hstop
  | cons a items ih =>
    rw [List.flatMap_cons, List.append_assoc]
    exact reads_row_cons hp (hitems a List.mem_cons_self _)
      (ih fun b hb => hitems b (List.mem_cons_of_mem _ hb))

end Repeated

/-! ### Single characters -/

theorem reads_digit {c : Char} (hc : c ∈ digitChars) :
    digit.reads (c :: cs) = some (digit.node [.leaf (some c)], cs) :=
  reads_of_single rfl (by rw [row_oneOf hc, row_nil]; rfl)

theorem reads_dot : dot.reads ('.' :: cs) = some (dot.node [.leaf (some '.')], cs) :=
  reads_of_single rfl (by rw [row_lit, row_nil]; rfl)

end Part

/-- The characters of expressions. -/
def exprAlphabet : List Char := operatorChars ++ (digitChars ++ ['.'])

/-- The tree of a character of an expression. -/
def exprCharTree (c : Char) : ParseTree :=
  Part.exprChar.node
    [if c ∈ operatorChars then .leaf (some c)
     else if c ∈ digitChars then Part.digit.node [.leaf (some c)]
     else Part.dot.node [.leaf (some c)]]

/-- A text of the expression alphabet with at least one character. -/
structure ExprText where
  chars : List Char
  nonempty : chars ≠ []
  allowed : ∀ c ∈ chars, c ∈ exprAlphabet

/-- A row of at least one digit. -/
structure DigitText where
  chars : List Char
  nonempty : chars ≠ []
  allowed : ∀ c ∈ chars, c ∈ digitChars

/-- The tree of a head item and of the items after it. -/
def headedTree (p q : Part) (item : Char → ParseTree) : List Char → ParseTree
  | [] => default
  | c :: cs => p.node [item c, q.rowTree (cs.map item)]

def ExprText.tree (e : ExprText) : ParseTree :=
  headedTree .expression .exprChars exprCharTree e.chars

def DigitText.tree (d : DigitText) : ParseTree :=
  headedTree .number .digits (fun c => Part.digit.node [.leaf (some c)]) d.chars

namespace Part

open Grammar PatternText.Symbol

variable {cs rest : List Char}

theorem reads_exprChar {c : Char} (hc : c ∈ exprAlphabet) :
    exprChar.reads (c :: cs) = some (exprCharTree c, cs) := by
  rcases List.mem_append.1 hc with hoperator | hc
  · rw [exprCharTree, if_pos hoperator]
    refine reads_of_only 0 rfl [.oneOf operatorChars] (by decide +kernel) ?_ ?_
    · rw [beginsIn, Terminal.accepts, List.contains_iff_mem.2 hoperator]
      rfl
    · rw [row_oneOf hoperator, row_nil]
      rfl
  have hother : ∀ d ∈ digitChars ++ ['.'], d ∉ operatorChars := by
    simp [digitChars, operatorChars]
  rcases List.mem_append.1 hc with hdigit | hdot
  · rw [exprCharTree, if_neg (hother c hc), if_pos hdigit]
    refine reads_of_only 1 rfl [.oneOf digitChars] (by decide +kernel) ?_ ?_
    · rw [beginsIn, Terminal.accepts, List.contains_iff_mem.2 hdigit]
      rfl
    · rw [row_ref (reads_digit hdigit), row_nil]
      rfl
  · obtain rfl := List.mem_singleton.1 hdot
    refine reads_of_only 2 rfl [.oneOf ['.']] (by decide +kernel) rfl ?_
    rw [row_ref reads_dot, row_nil]
    rfl

/-- Characters read one by one, with a first one, up to where no further one begins. -/
theorem reads_headed {p q r : Part} (hp : p.productions = [[r.ref, q.ref]])
    (hq : q.productions = [[r.ref, q.ref], [epsilon]]) {item : Char → ParseTree} {chars : List Char}
    (hne : chars ≠ []) (hitems : ∀ c ∈ chars, ∀ cs, r.reads (c :: cs) = some (item c, cs))
    (hstop : r.reads rest = none) :
    p.reads (chars ++ rest) = some (headedTree p q item chars, rest) := by
  cases chars with
  | nil => exact absurd rfl hne
  | cons c chars =>
    have htail := reads_items hq (fun c => [c]) chars
      (fun a ha => hitems a (List.mem_cons_of_mem _ ha)) hstop
    rw [List.flatMap_singleton'] at htail
    refine reads_of_single hp ?_
    rw [List.cons_append, row_ref (hitems c List.mem_cons_self _), row_ref htail, row_nil]
    rfl

/-- The characters that can follow an expression. -/
def exprEnds : List Char := [',', '}', ':']

theorem reads_expression (e : ExprText) (h : beginsIn [.oneOf exprEnds] rest = true) :
    expression.reads (e.chars ++ rest) = some (e.tree, rest) := by
  refine reads_headed rfl rfl e.nonempty (fun c hc cs => reads_exprChar (e.allowed c hc)) ?_
  exact reads_eq_none [.oneOf exprEnds] (by decide +kernel) h

theorem reads_number (d : DigitText) :
    number.reads (d.chars ++ ')' :: rest) = some (d.tree, ')' :: rest) := by
  refine reads_headed rfl rfl d.nonempty (fun c hc cs => reads_digit (d.allowed c hc)) ?_
  exact reads_eq_none [.oneOf [')']] (by decide +kernel) rfl

end Part

/-! ### Modifiers -/

/-- One leaf for each character. -/
def leaves (cs : List Char) : List ParseTree := cs.map fun c => .leaf (some c)

namespace FirstModifier

/-- The text of the modifier of a source reference, if there is one. -/
def optText : Option FirstModifier → List Char
  | none => []
  | some first => ':' :: firstWord
  | some minusFirst => ':' :: '-' :: firstWord

def optTree : Option FirstModifier → ParseTree
  | none => Part.optBackrefMod.node [.leaf none]
  | some first => Part.optBackrefMod.node
      [.leaf (some ':'), Part.backrefMod.node [Part.backrefModFirst.node (leaves firstWord)]]
  | some minusFirst => Part.optBackrefMod.node
      [.leaf (some ':'),
        Part.backrefMod.node [Part.backrefModMinFirst.node (leaves ('-' :: firstWord))]]

end FirstModifier

/-- A modifier of a computed number. -/
inductive NumberModifier where
  | fixed (places : DigitText)
  | simplify

namespace NumberModifier

def text : NumberModifier → List Char
  | fixed places => fixedWord ++ (places.chars ++ [')'])
  | simplify => simplifyWord

def tree : NumberModifier → ParseTree
  | fixed places => Part.exprMod.node (leaves fixedWord ++ [places.tree, .leaf (some ')')])
  | simplify => Part.exprMod.node (leaves simplifyWord)

/-- The text of modifiers, each after a colon. -/
def textAll (ms : List NumberModifier) : List Char := ms.flatMap fun m => ':' :: m.text

def treeAll : List NumberModifier → ParseTree
  | [] => Part.optExprMods.node [.leaf none]
  | m :: ms => Part.optExprMods.node [.leaf (some ':'), m.tree, treeAll ms]

end NumberModifier

namespace Part

open Grammar PatternText.Symbol

variable {cs rest : List Char}

theorem row_word (word : List Char) :
    row (word.map lit) (word ++ rest) = some (leaves word, rest) := by
  rw [← List.append_nil (word.map lit), row_lits, row_nil, Option.map_some, List.append_nil]
  rfl

theorem reads_optBackrefMod (modifier : Option FirstModifier) :
    optBackrefMod.reads (FirstModifier.optText modifier ++ '}' :: rest) =
      some (FirstModifier.optTree modifier, '}' :: rest) := by
  cases modifier with
  | none => exact reads_of_optional_none rfl (row_lit_ne (by decide))
  | some modifier =>
    cases modifier with
    | first =>
      have hword : backrefModFirst.reads (firstWord ++ '}' :: rest) =
          some (backrefModFirst.node (leaves firstWord), '}' :: rest) :=
        reads_of_single rfl (row_word firstWord)
      have hmod := reads_of_only (p := backrefMod) 0 rfl [.oneOf ['f']] (by decide +kernel) rfl
        (by rw [row_ref hword, row_nil]; rfl)
      refine reads_of_optional rfl ?_
      rw [FirstModifier.optText, List.cons_append, row_lit, row_ref hmod, row_nil]
      rfl
    | minusFirst =>
      have hword : backrefModMinFirst.reads ('-' :: firstWord ++ '}' :: rest) =
          some (backrefModMinFirst.node (leaves ('-' :: firstWord)), '}' :: rest) :=
        reads_of_single rfl (row_word ('-' :: firstWord))
      have hmod := reads_of_only (p := backrefMod) 1 rfl [.oneOf ['-']] (by decide +kernel) rfl
        (by rw [row_ref hword, row_nil]; rfl)
      refine reads_of_optional rfl ?_
      rw [FirstModifier.optText, List.cons_append, row_lit, row_ref hmod, row_nil]
      rfl

theorem reads_exprMod (m : NumberModifier) : exprMod.reads (m.text ++ rest) = some (m.tree, rest) := by
  cases m with
  | fixed places =>
    refine reads_of_only 0 rfl [.oneOf ['f']] (by decide +kernel) rfl ?_
    rw [NumberModifier.text, List.append_assoc, row_lits, List.append_assoc,
      List.singleton_append, row_ref (reads_number places), row_lit, row_nil]
    rfl
  | simplify => exact reads_of_only 1 rfl [.oneOf ['s']] (by decide +kernel) rfl (row_word _)

theorem reads_optExprMods (ms : List NumberModifier) :
    optExprMods.reads (NumberModifier.textAll ms ++ '}' :: rest) =
      some (NumberModifier.treeAll ms, '}' :: rest) := by
  induction ms with
  | nil => exact reads_of_optional_none rfl (row_lit_ne (by decide))
  | cons m ms ih =>
    refine reads_of_optional rfl ?_
    rw [NumberModifier.textAll, List.flatMap_cons, ← NumberModifier.textAll, List.cons_append,
      List.cons_append, List.append_assoc, row_lit, row_ref (reads_exprMod m), row_ref ih, row_nil]
    rfl

end Part

end PatternText
