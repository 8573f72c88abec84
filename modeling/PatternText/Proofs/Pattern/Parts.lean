import PatternText.Pattern.Rules
import PatternText.Proofs.Grammar.Choice

/-! The rules of patterns spelled out. Every non-terminal of the pattern grammar is a part; its number,
its title and its productions are written down here once and agree with what the rules say. The parts
can be ranked, so the grammar is not left-recursive and the longest match of a part is the best of its
productions. -/

namespace PatternText

/-- The non-terminals of the pattern grammar in the order of their numbers. -/
inductive Part where
  | regex | alternatives | term | factor | base | parens
  | multipliers | multiplier | zeroOrMore | zeroOrOne | oneOrMore
  | numberOf | numberOrMoreOf | numberRangeOf
  | dot | char | inclusiveList | exclusiveList
  | charSpec | range | charSpecs | charSpecChar
  | metaChar | nonMetaChar | metaCharSpec | nonMetaCharSpec
  | digit | digits | number
  | sourceExpr | numericExpr | exprChar | exprChars | expression
  | optBackrefMod | backrefMod | backrefModFirst | backrefModMinFirst
  | optExprMods | exprMod
  | backref | escMetaChar | escMetaCharSpec
  | whitespace | nonWhitespace | digitAlias | nonDigitAlias | wordChar | nonWordChar
  deriving DecidableEq

/-- The characters that a pattern must escape. -/
def metaChars : List Char :=
  ['^', '$', '{', '}', '[', ']', '(', ')', '.', '|', '*', '+', '?', '\\']

def digitChars : List Char := ['1', '2', '3', '4', '5', '6', '7', '8', '9', '0']

/-- The characters of expressions besides digits and the point. -/
def operatorChars : List Char :=
  ['i', 'j', '[', ']', '+', '-', '*', '/', '%', '(', ')', 'S', 'N']

def firstWord : List Char := ['f', 'i', 'r', 's', 't']

/-- The word of a fixed number of places, up to that number. -/
def fixedWord : List Char := ['f', 'i', 'x', 'e', 'd', '(']

def simplifyWord : List Char := ['s', 'i', 'm', 'p', 'l', 'i', 'f', 'y']

namespace Part

/-- The name that the nodes of a part bear. -/
def title : Part → String
  | regex => "REGEX"
  | alternatives => "ALTERNATIVES"
  | term => "TERM"
  | factor => "FACTOR"
  | base => "BASE"
  | parens => "PARENS"
  | multipliers => "MULTIPLIERS"
  | multiplier => "MULTIPLIER"
  | zeroOrMore => "ZERO_OR_MORE"
  | zeroOrOne => "ZERO_OR_ONE"
  | oneOrMore => "ONE_OR_MORE"
  | numberOf => "NUMBER_OF"
  | numberOrMoreOf => "NUMBER_OR_MORE_OF"
  | numberRangeOf => "NUMBER_RANGE_OF"
  | dot => "DOT"
  | char => "CHAR"
  | inclusiveList => "INCLUSIVE_CHAR_LIST"
  | exclusiveList => "EXCLUSIVE_CHAR_LIST"
  | charSpec => "CHAR_SPEC"
  | range => "RANGE"
  | charSpecs => "CHAR_SPECS"
  | charSpecChar => "CHAR_SPEC_CHAR"
  | metaChar => "META_CHAR"
  | nonMetaChar => "NON_META_CHAR"
  | metaCharSpec => "META_CHAR_SPEC"
  | nonMetaCharSpec => "NON_META_CHAR_SPEC"
  | digit => "DIGIT"
  | digits => "DIGITS"
  | number => "NUMBER"
  | sourceExpr => "SRCBACKREF_EXPR"
  | numericExpr => "NUMERIC_EXPR"
  | exprChar => "EXPR_CHAR"
  | exprChars => "EXPR_CHARS"
  | expression => "EXPRESSION"
  | optBackrefMod => "OPT_BACKREF_MOD"
  | backrefMod => "BACKREF_MOD"
  | backrefModFirst => "BACKREF_MOD_FIRST"
  | backrefModMinFirst => "BACKREF_MOD_MIN_FIRST"
  | optExprMods => "OPT_EXPR_MODS"
  | exprMod => "EXPR_MOD"
  | backref => "BACKREF"
  | escMetaChar => "ESC_META_CHAR"
  | escMetaCharSpec => "ESC_META_CHAR_SPEC"
  | whitespace => "WHITESPACE"
  | nonWhitespace => "NON_WHITESPACE"
  | digitAlias => "DIGIT_ALIAS"
  | nonDigitAlias => "NON_DIGIT_ALIAS"
  | wordChar => "WORD_CHAR"
  | nonWordChar => "NON_WORD_CHAR"

/-- A place of a production where the part stands. -/
def ref (p : Part) : Symbol := .nonTerminal p.ctorIdx

end Part

namespace Symbol

/-- A place where one character stands. -/
def lit (c : Char) : Symbol := .terminal (.oneOf [c])

def oneOf (chars : List Char) : Symbol := .terminal (.oneOf chars)

def noneOf (chars : List Char) : Symbol := .terminal (.noneOf chars)

def epsilon : Symbol := .terminal .epsilon

end Symbol

namespace Part

open PatternText.Symbol

/-- The productions of a part, the preferred ones first. -/
def productions : Part → List (List Symbol)
  | regex => [[term.ref], [alternatives.ref]]
  | alternatives => [[term.ref, lit '|', regex.ref]]
  | term => [[factor.ref, term.ref], [epsilon]]
  | factor => [[base.ref, multipliers.ref]]
  | base => [[char.ref], [dot.ref], [parens.ref], [backref.ref], [sourceExpr.ref], [numericExpr.ref]]
  | parens => [[lit '(', regex.ref, lit ')']]
  | multipliers => [[multiplier.ref, multipliers.ref], [epsilon]]
  | multiplier => [[zeroOrMore.ref], [zeroOrOne.ref], [oneOrMore.ref], [numberOf.ref],
      [numberOrMoreOf.ref], [numberRangeOf.ref]]
  | zeroOrMore => [[lit '*']]
  | zeroOrOne => [[lit '?']]
  | oneOrMore => [[lit '+']]
  | numberOf => [[lit '{', expression.ref, lit '}']]
  | numberOrMoreOf => [[lit '{', expression.ref, lit ',', lit '}']]
  | numberRangeOf => [[lit '{', expression.ref, lit ',', expression.ref, lit '}']]
  | dot => [[lit '.']]
  | char => [[nonMetaChar.ref], [escMetaChar.ref], [digit.ref], [whitespace.ref], [nonWhitespace.ref],
      [digitAlias.ref], [nonDigitAlias.ref], [wordChar.ref], [nonWordChar.ref], [exclusiveList.ref],
      [inclusiveList.ref]]
  | inclusiveList => [[lit '[', charSpec.ref, charSpecs.ref, lit ']']]
  | exclusiveList => [[lit '[', lit '^', charSpec.ref, charSpecs.ref, lit ']']]
  | charSpec => [[charSpecChar.ref], [range.ref]]
  | range => [[charSpecChar.ref, lit '-', charSpecChar.ref]]
  | charSpecs => [[charSpec.ref, charSpecs.ref], [epsilon]]
  | charSpecChar => [[nonMetaCharSpec.ref], [escMetaCharSpec.ref]]
  | metaChar => [[oneOf metaChars]]
  | nonMetaChar => [[noneOf metaChars]]
  | metaCharSpec => [[lit ']']]
  | nonMetaCharSpec => [[noneOf [']']]]
  | digit => [[oneOf digitChars]]
  | digits => [[digit.ref, digits.ref], [epsilon]]
  | number => [[digit.ref, digits.ref]]
  | sourceExpr => [[lit '{', lit '{', expression.ref, optBackrefMod.ref, lit '}', lit '}']]
  | numericExpr => [[lit '{', lit '{', lit '=', expression.ref, optExprMods.ref, lit '}', lit '}']]
  | exprChar => [[oneOf operatorChars], [digit.ref], [dot.ref]]
  | exprChars => [[exprChar.ref, exprChars.ref], [epsilon]]
  | expression => [[exprChar.ref, exprChars.ref]]
  | optBackrefMod => [[lit ':', backrefMod.ref], [epsilon]]
  | backrefMod => [[backrefModFirst.ref], [backrefModMinFirst.ref]]
  | backrefModFirst => [firstWord.map lit]
  | backrefModMinFirst => [lit '-' :: firstWord.map lit]
  | optExprMods => [[lit ':', exprMod.ref, optExprMods.ref], [epsilon]]
  | exprMod => [fixedWord.map lit ++ [number.ref, lit ')'], simplifyWord.map lit]
  | backref => [[lit '\\', digit.ref]]
  | escMetaChar => [[lit '\\', metaChar.ref]]
  | escMetaCharSpec => [[lit '\\', metaCharSpec.ref]]
  | whitespace => [[lit '\\', lit 's']]
  | nonWhitespace => [[lit '\\', lit 'S']]
  | digitAlias => [[lit '\\', lit 'd']]
  | nonDigitAlias => [[lit '\\', lit 'D']]
  | wordChar => [[lit '\\', lit 'w']]
  | nonWordChar => [[lit '\\', lit 'W']]

/-- The parts that match the empty text. -/
def nullable : List Part :=
  [regex, term, multipliers, charSpecs, digits, exprChars, optBackrefMod, optExprMods]

/-- A rank that falls from a part to those at the front of its productions. -/
def rank : Part → Nat
  | regex => 7
  | alternatives => 6
  | term => 5
  | factor | charSpecs => 4
  | base | charSpec => 3
  | char | multipliers | range | exprChars | expression => 2
  | multiplier | charSpecChar | digits | number | exprChar | backrefMod => 1
  | _ => 0

end Part

/-! ### The grammar of the parts -/

/-- The pattern grammar as the parts have it. -/
def partGrammar : Grammar :=
  ⟨((List.range 49).map fun i => ⟨(Part.ofNat i).title, (Part.ofNat i).productions⟩).toArray⟩

theorem patternGrammar_eq : patternGrammar = partGrammar := by
  have h : patternGrammar.nonTerminals.toList = partGrammar.nonTerminals.toList := by decide +kernel
  calc
    patternGrammar = ⟨patternGrammar.nonTerminals⟩ := rfl
    _ = ⟨partGrammar.nonTerminals⟩ := by rw [Array.toList_inj.1 h]
    _ = partGrammar := rfl

def nullableNumbers : List Nat := Part.nullable.map Part.ctorIdx

theorem patternGrammar_ranked :
    patternGrammar.isRankedBy nullableNumbers ((List.range 49).map fun i => (Part.ofNat i).rank) =
      true := by
  rw [patternGrammar_eq]
  decide +kernel

theorem patternGrammar_not_leftRecursive : ¬patternGrammar.LeftRecursive :=
  Grammar.not_leftRecursive_of_isRankedBy patternGrammar_ranked

namespace Part

open Grammar PatternText.Symbol

variable {p : Part} {cs rest mid : List Char} {symbols production other : List Symbol}
  {tree : ParseTree} {trees : List ParseTree}

theorem getElem?_ctorIdx (p : Part) :
    patternGrammar.nonTerminals[p.ctorIdx]? = some ⟨p.title, p.productions⟩ := by
  rw [patternGrammar_eq]
  cases p <;> rfl

theorem productionsOf_ctorIdx (p : Part) : patternGrammar.productionsOf p.ctorIdx = p.productions := by
  rw [productionsOf, getElem?_ctorIdx]
  rfl

theorem nameOf_ctorIdx (p : Part) : patternGrammar.nameOf p.ctorIdx = p.title := by
  rw [nameOf, getElem?_ctorIdx]
  rfl

/-- A node of the part. -/
def node (p : Part) (children : List ParseTree) : ParseTree := .node p.title children

/-- The longest match of a part. -/
def reads (p : Part) (cs : List Char) : Option Reading := patternGrammar.longest p.ctorIdx cs

/-- The matches of symbols one after the other. -/
def row (symbols : List Symbol) (cs : List Char) : Option (List ParseTree × List Char) :=
  readSymbols patternGrammar.longest symbols cs

/-! ### Rows -/

theorem row_nil (cs : List Char) : row [] cs = some ([], cs) := rfl

theorem row_ref (h : p.reads cs = some (tree, mid)) :
    row (p.ref :: symbols) cs = (row symbols mid).map fun m => (tree :: m.1, m.2) := by
  rw [row, readSymbols, ref, readSymbol, ← reads, h]
  rfl

theorem row_ref_none (h : p.reads cs = none) : row (p.ref :: symbols) cs = none := by
  rw [row, readSymbols, ref, readSymbol, ← reads, h]

theorem row_epsilon : row [epsilon] cs = some ([.leaf none], cs) := rfl

theorem row_terminal {terminal : Terminal} {c : Char} (h : terminal.accepts c = true) :
    row (.terminal terminal :: symbols) (c :: cs) =
      (row symbols cs).map fun m => (.leaf (some c) :: m.1, m.2) := by
  cases terminal with
  | epsilon => cases h
  | oneOf _ | noneOf _ =>
    simp only [row, readSymbols, readSymbol, readTerminal, h, if_true]

theorem row_oneOf {chars : List Char} {c : Char} (h : c ∈ chars) :
    row (oneOf chars :: symbols) (c :: cs) =
      (row symbols cs).map fun m => (.leaf (some c) :: m.1, m.2) :=
  row_terminal (List.contains_iff_mem.2 h)

theorem row_noneOf {chars : List Char} {c : Char} (h : c ∉ chars) :
    row (noneOf chars :: symbols) (c :: cs) =
      (row symbols cs).map fun m => (.leaf (some c) :: m.1, m.2) := by
  apply row_terminal
  rw [Terminal.accepts, Bool.not_eq_true', ← Bool.not_eq_true, List.contains_iff_mem]
  exact h

theorem row_lit (c : Char) : row (lit c :: symbols) (c :: cs) =
    (row symbols cs).map fun m => (.leaf (some c) :: m.1, m.2) :=
  row_oneOf (List.mem_singleton_self c)

theorem row_oneOf_eq_none {chars : List Char} {c : Char} (h : c ∉ chars) :
    row (oneOf chars :: symbols) (c :: cs) = none := by
  have haccepts : (Terminal.oneOf chars).accepts c = false := by
    rw [Terminal.accepts, ← Bool.not_eq_true, List.contains_iff_mem]
    exact h
  simp only [row, readSymbols, oneOf, readSymbol, readTerminal, haccepts, Bool.false_eq_true,
    if_false]

theorem row_lit_ne {c d : Char} (h : d ≠ c) : row (lit c :: symbols) (d :: cs) = none :=
  row_oneOf_eq_none fun hmem => h (List.mem_singleton.1 hmem)

theorem row_lit_eq_none {c : Char} (h : cs.head? ≠ some c) : row (lit c :: symbols) cs = none := by
  cases cs with
  | nil => rfl
  | cons d cs => exact row_lit_ne fun hd => h (congrArg some hd)

theorem row_lit_eq_some {c : Char} (h : row (lit c :: symbols) cs = some (trees, rest)) :
    ∃ cs' trees', cs = c :: cs' ∧ row symbols cs' = some (trees', rest) := by
  by_cases hhead : cs.head? = some c
  · obtain ⟨cs', rfl⟩ := List.head?_eq_some_iff.1 hhead
    rw [row_lit, Option.map_eq_some_iff] at h
    obtain ⟨⟨trees', rest'⟩, hrow, heq⟩ := h
    obtain ⟨-, rfl⟩ := Prod.mk.inj heq
    exact ⟨cs', trees', rfl, hrow⟩
  · rw [row_lit_eq_none hhead] at h
    cases h

theorem row_lits (front : List Char) : row (front.map lit ++ symbols) (front ++ cs) =
    (row symbols cs).map fun m => (front.map (fun c => .leaf (some c)) ++ m.1, m.2) := by
  induction front with
  | nil =>
    rw [List.map_nil, List.nil_append, List.nil_append]
    cases row symbols cs <;> rfl
  | cons c front ih =>
    rw [List.map_cons, List.cons_append, List.cons_append, row_lit, ih, Option.map_map]
    rfl

/-! ### Choices -/

/-- The production at index `i` gives the match if it takes more than those before it and no less than
those after it. -/
theorem reads_of_best (i : Nat) (hi : p.productions[i]? = some production)
    (hread : row production cs = some (trees, rest))
    (hbefore : ∀ q ∈ p.productions.take i, ∀ m, row q cs = some m → rest.length < m.2.length)
    (hafter : ∀ q ∈ p.productions.drop (i + 1), ∀ m, row q cs = some m → rest.length ≤ m.2.length) :
    p.reads cs = some (p.node trees, rest) := by
  obtain ⟨hlt, hget⟩ := List.getElem?_eq_some_iff.1 hi
  have hsplit : patternGrammar.productionsOf p.ctorIdx =
      p.productions.take i ++ production :: p.productions.drop (i + 1) := by
    rw [productionsOf_ctorIdx, ← hget, List.getElem_cons_drop, List.take_append_drop]
  rw [reads, longest_eq patternGrammar_not_leftRecursive,
    readProductions_of_best hsplit hread hbefore hafter, nameOf_ctorIdx]
  rfl

/-- Whether the part matches no text that begins in this way. -/
def refuses (p : Part) (known : List Terminal) : Bool := partGrammar.refuses 8 p.ctorIdx known

/-- Whether the symbols match no text that begins in this way. -/
def rowRefuses (symbols : List Symbol) (known : List Terminal) : Bool :=
  refusesWith (partGrammar.refuses 8) symbols known

theorem reads_eq_none (known : List Terminal) (h : p.refuses known = true)
    (hcs : beginsIn known cs = true) : p.reads cs = none := by
  rw [refuses, ← patternGrammar_eq] at h
  exact longest_eq_none_of_refuses patternGrammar_not_leftRecursive h hcs

theorem row_eq_none (known : List Terminal) (h : rowRefuses symbols known = true)
    (hcs : beginsIn known cs = true) : row symbols cs = none := by
  rw [rowRefuses, ← patternGrammar_eq] at h
  have hinner : ∀ id known rest, patternGrammar.refuses 8 id known = true →
      beginsIn known rest = true → patternGrammar.longest id rest = none :=
    fun _ _ _ => longest_eq_none_of_refuses patternGrammar_not_leftRecursive
  exact readSymbols_eq_none_of_refusesWith hinner h hcs

/-- The production at index `i` gives the match if no other one matches. -/
theorem reads_of_alone (i : Nat) (hi : p.productions[i]? = some production)
    (hothers : ∀ q ∈ p.productions.eraseIdx i, row q cs = none)
    (hread : row production cs = some (trees, rest)) : p.reads cs = some (p.node trees, rest) := by
  rw [List.eraseIdx_eq_take_drop_succ] at hothers
  apply reads_of_best i hi hread
  · intro q hq m hm
    rw [hothers q (List.mem_append_left _ hq)] at hm
    cases hm
  · intro q hq m hm
    rw [hothers q (List.mem_append_right _ hq)] at hm
    cases hm

/-- The production at index `i` gives the match if all others refuse the text. -/
theorem reads_of_only (i : Nat) (hi : p.productions[i]? = some production) (known : List Terminal)
    (hothers : (p.productions.eraseIdx i).all (rowRefuses · known) = true)
    (hcs : beginsIn known cs = true) (hread : row production cs = some (trees, rest)) :
    p.reads cs = some (p.node trees, rest) :=
  reads_of_alone i hi (fun q hq => row_eq_none known (List.all_eq_true.1 hothers q hq) hcs) hread

theorem reads_of_single (hp : p.productions = [production])
    (hread : row production cs = some (trees, rest)) :
    p.reads cs = some (p.node trees, rest) :=
  reads_of_only 0 (by rw [hp]; rfl) [] (by rw [hp]; rfl) rfl hread

theorem exists_row_of_reads (hp : p.productions = [production])
    (h : p.reads cs = some (tree, rest)) : ∃ trees, row production cs = some (trees, rest) := by
  rw [reads, longest_eq patternGrammar_not_leftRecursive] at h
  obtain ⟨production', hmem, trees, hread, -⟩ := readProductions_eq_some h
  rw [productionsOf_ctorIdx, hp] at hmem
  obtain rfl := List.mem_singleton.1 hmem
  exact ⟨trees, hread⟩

theorem reads_single_eq_none (hp : p.productions = [production]) (h : row production cs = none) :
    p.reads cs = none := by
  rw [reads, longest_eq patternGrammar_not_leftRecursive]
  apply readProductions_of_none
  rw [productionsOf_ctorIdx, hp]
  intro q hq
  obtain rfl := List.mem_singleton.1 hq
  exact h

/-- The first of two productions gives the match if the second one takes no more. -/
theorem reads_of_first (hp : p.productions = [production, other])
    (hread : row production cs = some (trees, rest))
    (hother : ∀ m, row other cs = some m → rest.length ≤ m.2.length) :
    p.reads cs = some (p.node trees, rest) := by
  apply reads_of_best 0 (by rw [hp]; rfl) hread
  · intro q hq
    cases hq
  · intro q hq m hm
    obtain rfl : q = other := by simpa [hp] using hq
    exact hother m hm

/-- The second of two productions gives the match if the first one takes less. -/
theorem reads_of_second (hp : p.productions = [other, production])
    (hread : row production cs = some (trees, rest))
    (hother : ∀ m, row other cs = some m → rest.length < m.2.length) :
    p.reads cs = some (p.node trees, rest) := by
  apply reads_of_best 1 (by rw [hp]; rfl) hread
  · intro q hq m hm
    obtain rfl : q = other := by simpa [hp] using hq
    exact hother m hm
  · intro q hq
    simp [hp] at hq

/-- An optional production is taken where it matches. -/
theorem reads_of_optional (hp : p.productions = [production, [epsilon]])
    (hread : row production cs = some (trees, rest)) : p.reads cs = some (p.node trees, rest) := by
  apply reads_of_first hp hread
  intro m hm
  obtain rfl := Option.some.inj (row_epsilon.symm.trans hm)
  exact (readSymbols_progress progressive_longest hread).1.length_le

theorem reads_of_optional_none (hp : p.productions = [production, [epsilon]])
    (hread : row production cs = none) : p.reads cs = some (p.node [.leaf none], cs) := by
  apply reads_of_second hp row_epsilon
  intro m hm
  rw [hread] at hm
  cases hm

theorem reads_nil_eq_none (h : p ∉ nullable) : p.reads [] = none := by
  have hnull : [p.ref].all (nullableIn nullableNumbers) = false := by
    revert h
    cases p <;> decide
  have hrow := readSymbols_nil_eq_none patternGrammar_ranked hnull
  cases hread : p.reads [] with
  | none => rfl
  | some m =>
    rw [← row, row_ref hread] at hrow
    cases hrow

end Part

end PatternText
