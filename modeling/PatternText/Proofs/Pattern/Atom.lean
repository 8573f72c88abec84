import PatternText.Proofs.Pattern.CharList

/-! Atoms and quantifiers. An atom is whatever a pattern can repeat besides a group; a quantifier says
how often. The first one or two characters tell which of them it is, and both end by themselves: an
atom or a quantifier is read in the same way whatever comes after it. -/

namespace PatternText

/-- The letters that name an alphabet behind a backslash. -/
def escapeLetters : List (Part × Char) :=
  [(.whitespace, 's'), (.nonWhitespace, 'S'), (.digitAlias, 'd'), (.nonDigitAlias, 'D'),
    (.wordChar, 'w'), (.nonWordChar, 'W')]

inductive Atom where
  | plain (c : Char) (other : c ∉ metaChars)
  | escaped (c : Char) (special : c ∈ metaChars)
  | named (part : Part) (letter : Char) (mem : (part, letter) ∈ escapeLetters)
  | list (list : CharList)
  | dot
  | backref (digit : Char) (mem : digit ∈ digitChars)
  | source (place : ExprText) (modifier : Option FirstModifier)
  | numeric (value : ExprText) (modifiers : List NumberModifier)

namespace Atom

def text : Atom → List Char
  | plain c _ => [c]
  | escaped c _ | named _ c _ | backref c _ => ['\\', c]
  | list l => l.text
  | dot => ['.']
  | source e m => '{' :: '{' :: (e.chars ++ (FirstModifier.optText m ++ ['}', '}']))
  | numeric e ms => '{' :: '{' :: '=' :: (e.chars ++ (NumberModifier.textAll ms ++ ['}', '}']))

/-- The tree below the node of the atom. -/
def inner : Atom → ParseTree
  | plain c _ => Part.char.node [Part.nonMetaChar.node [.leaf (some c)]]
  | escaped c _ =>
    Part.char.node [Part.escMetaChar.node
      [.leaf (some '\\'), Part.metaChar.node [.leaf (some c)]]]
  | named part c _ => Part.char.node [part.node [.leaf (some '\\'), .leaf (some c)]]
  | list l => Part.char.node [l.tree]
  | dot => Part.dot.node [.leaf (some '.')]
  | backref d _ => Part.backref.node [.leaf (some '\\'), Part.digit.node [.leaf (some d)]]
  | source e m =>
    Part.sourceExpr.node (leaves ['{', '{'] ++ [e.tree, FirstModifier.optTree m] ++ leaves ['}', '}'])
  | numeric e ms =>
    Part.numericExpr.node
      (leaves ['{', '{', '='] ++ [e.tree, NumberModifier.treeAll ms] ++ leaves ['}', '}'])

end Atom

/-- How often something is repeated, as a pattern writes it. -/
inductive Quantifier where
  | zeroOrMore
  | zeroOrOne
  | oneOrMore
  | exactly (count : ExprText)
  | atLeast (least : ExprText)
  | between (least most : ExprText)

namespace Quantifier

def text : Quantifier → List Char
  | zeroOrMore => ['*']
  | zeroOrOne => ['?']
  | oneOrMore => ['+']
  | exactly e => '{' :: (e.chars ++ ['}'])
  | atLeast e => '{' :: (e.chars ++ [',', '}'])
  | between e f => '{' :: (e.chars ++ ',' :: (f.chars ++ ['}']))

/-- The part that matches such a quantifier. -/
def part : Quantifier → Part
  | zeroOrMore => .zeroOrMore
  | zeroOrOne => .zeroOrOne
  | oneOrMore => .oneOrMore
  | exactly _ => .numberOf
  | atLeast _ => .numberOrMoreOf
  | between _ _ => .numberRangeOf

/-- The trees below the node of the quantifier. -/
def trees : Quantifier → List ParseTree
  | zeroOrMore => leaves ['*']
  | zeroOrOne => leaves ['?']
  | oneOrMore => leaves ['+']
  | exactly e => [.leaf (some '{'), e.tree, .leaf (some '}')]
  | atLeast e => [.leaf (some '{'), e.tree, .leaf (some ','), .leaf (some '}')]
  | between e f => [.leaf (some '{'), e.tree, .leaf (some ','), f.tree, .leaf (some '}')]

def tree (x : Quantifier) : ParseTree := Part.multiplier.node [x.part.node x.trees]

end Quantifier

open Grammar in
theorem ExprText.beginsIn_chars (e : ExprText) (cs : List Char) :
    beginsIn [.oneOf exprAlphabet] (e.chars ++ cs) = true := by
  obtain ⟨chars, hne, hall⟩ := e
  cases chars with
  | nil => exact absurd rfl hne
  | cons c chars =>
    exact beginsIn_oneOf (hall c List.mem_cons_self) rfl

namespace Part

open Grammar PatternText.Symbol

variable {cs rest : List Char}

/-! ### Quantifiers -/

/-- The text of a quantifier is matched by its own part. -/
theorem reads_part (x : Quantifier) :
    x.part.reads (x.text ++ rest) = some (x.part.node x.trees, rest) := by
  cases x with
  | zeroOrMore | zeroOrOne | oneOrMore => exact reads_of_single rfl (row_word [_])
  | exactly e =>
    refine reads_of_single rfl ?_
    rw [Quantifier.text, List.cons_append, List.append_assoc, row_lit,
      row_ref (reads_expression e rfl), List.singleton_append, row_lit, row_nil]
    rfl
  | atLeast e =>
    refine reads_of_single rfl ?_
    rw [Quantifier.text, List.cons_append, List.append_assoc, row_lit,
      row_ref (reads_expression e rfl), List.cons_append, row_lit, List.singleton_append, row_lit,
      row_nil]
    rfl
  | between e f =>
    refine reads_of_single rfl ?_
    rw [Quantifier.text, List.cons_append, List.append_assoc, row_lit,
      row_ref (reads_expression e rfl), List.cons_append, row_lit, List.append_assoc,
      row_ref (reads_expression f rfl), List.singleton_append, row_lit, row_nil]
    rfl

/-- A counted quantifier fails on what goes on differently after its first expression. -/
theorem reads_counted_eq_none {p : Part} {symbols : List Symbol} {e : ExprText}
    (hp : p.productions = [lit '{' :: expression.ref :: symbols])
    (hcs : beginsIn [.oneOf exprEnds] cs = true) (h : row symbols cs = none) :
    p.reads ('{' :: (e.chars ++ cs)) = none := by
  apply reads_single_eq_none hp
  rw [row_lit, row_ref (reads_expression e hcs), h]
  rfl

/-- A counted quantifier is read if the two others that begin like it fail. -/
theorem reads_multiplier_counted {i : Nat} {p q r : Part} {trees : List ParseTree}
    (hi : multiplier.productions[i]? = some [p.ref])
    (hsplit : multiplier.productions.eraseIdx i =
      multiplier.productions.take 3 ++ [[q.ref], [r.ref]])
    (hread : row [p.ref] ('{' :: cs) = some (trees, rest))
    (hq : q.reads ('{' :: cs) = none) (hr : r.reads ('{' :: cs) = none) :
    multiplier.reads ('{' :: cs) = some (multiplier.node trees, rest) := by
  apply reads_of_alone i hi
  · rw [hsplit]
    intro s hs
    rcases List.mem_append.1 hs with hs | hs
    · have h : (multiplier.productions.take 3).all (rowRefuses · [.oneOf ['{']]) = true := by
        decide +kernel
      exact row_eq_none _ (List.all_eq_true.1 h s hs) rfl
    · rcases List.mem_pair.1 hs with rfl | rfl
      · exact row_ref_none hq
      · exact row_ref_none hr
  · exact hread

theorem reads_multiplier (x : Quantifier) :
    multiplier.reads (x.text ++ rest) = some (x.tree, rest) := by
  have hpart : row [x.part.ref] (x.text ++ rest) = some ([x.part.node x.trees], rest) := by
    rw [row_ref (reads_part x), row_nil]
    rfl
  cases x with
  | zeroOrMore => exact reads_of_only 0 rfl [.oneOf ['*']] (by decide +kernel) rfl hpart
  | zeroOrOne => exact reads_of_only 1 rfl [.oneOf ['?']] (by decide +kernel) rfl hpart
  | oneOrMore => exact reads_of_only 2 rfl [.oneOf ['+']] (by decide +kernel) rfl hpart
  | exactly e =>
    have htext : (Quantifier.exactly e).text ++ rest = '{' :: (e.chars ++ '}' :: rest) := by
      simp [Quantifier.text]
    rw [htext] at hpart ⊢
    refine reads_multiplier_counted (q := numberOrMoreOf) (r := numberRangeOf) (i := 3) rfl rfl hpart ?_ ?_
    · exact reads_counted_eq_none rfl rfl (row_lit_ne (by decide))
    · exact reads_counted_eq_none rfl rfl (row_lit_ne (by decide))
  | atLeast e =>
    have htext : (Quantifier.atLeast e).text ++ rest = '{' :: (e.chars ++ ',' :: '}' :: rest) := by
      simp [Quantifier.text]
    rw [htext] at hpart ⊢
    have hstop : expression.reads ('}' :: rest) = none :=
      reads_eq_none [.oneOf ['}']] (by decide +kernel) rfl
    refine reads_multiplier_counted (q := numberOf) (r := numberRangeOf) (i := 4) rfl rfl hpart ?_ ?_
    · exact reads_counted_eq_none rfl rfl (row_lit_ne (by decide))
    · refine reads_counted_eq_none rfl rfl ?_
      rw [row_lit, row_ref_none hstop]
      rfl
  | between e f =>
    have htext : (Quantifier.between e f).text ++ rest =
        '{' :: (e.chars ++ ',' :: (f.chars ++ '}' :: rest)) := by
      simp [Quantifier.text]
    rw [htext] at hpart ⊢
    refine reads_multiplier_counted (q := numberOf) (r := numberOrMoreOf) (i := 5) rfl rfl hpart ?_ ?_
    · exact reads_counted_eq_none rfl rfl (row_lit_ne (by decide))
    · refine reads_counted_eq_none rfl rfl ?_
      rw [row_lit, row_eq_none [.oneOf exprAlphabet] (by decide +kernel) (f.beginsIn_chars _)]
      rfl

/-! ### Atoms -/

theorem reads_char_plain {c : Char} (hc : c ∉ metaChars) :
    char.reads (c :: rest) = some (char.node [nonMetaChar.node [.leaf (some c)]], rest) := by
  have hplain : nonMetaChar.reads (c :: rest) = some (nonMetaChar.node [.leaf (some c)], rest) :=
    reads_of_single rfl (by rw [row_noneOf hc, row_nil]; rfl)
  have hbegin : beginsIn [.noneOf metaChars] (c :: rest) = true := beginsIn_noneOf hc rfl
  apply reads_of_best 0 rfl
  · rw [row_ref hplain, row_nil]
    rfl
  · nofun
  · -- a digit is a character of its own part as well, declared later
    intro q hq m hm
    have hcases : ∀ q ∈ char.productions.drop 1,
        q = [digit.ref] ∨ rowRefuses q [.noneOf metaChars] = true := by
      decide +kernel
    rcases hcases q hq with rfl | hrefuses
    · by_cases hdigit : c ∈ digitChars
      · rw [row_ref (reads_digit hdigit), row_nil] at hm
        obtain rfl := Option.some.inj hm
        exact Nat.le_refl _
      · rw [row_ref_none (reads_single_eq_none rfl (row_oneOf_eq_none hdigit))] at hm
        cases hm
    · rw [row_eq_none _ hrefuses hbegin] at hm
      cases hm

theorem reads_char_escaped {c : Char} (hc : c ∈ metaChars) :
    char.reads ('\\' :: c :: rest) = some
      (char.node [escMetaChar.node [.leaf (some '\\'), metaChar.node [.leaf (some c)]]], rest) := by
  have hspecial : metaChar.reads (c :: rest) = some (metaChar.node [.leaf (some c)], rest) :=
    reads_of_single rfl (by rw [row_oneOf hc, row_nil]; rfl)
  have hescaped : escMetaChar.reads ('\\' :: c :: rest) = some
      (escMetaChar.node [.leaf (some '\\'), metaChar.node [.leaf (some c)]], rest) :=
    reads_of_single rfl (by rw [row_lit, row_ref hspecial, row_nil]; rfl)
  refine reads_of_only 1 rfl [.oneOf ['\\'], .oneOf metaChars] (by decide +kernel) ?_ ?_
  · exact beginsIn_oneOf List.mem_cons_self (beginsIn_oneOf hc rfl)
  · rw [row_ref hescaped, row_nil]
    rfl

theorem reads_char_named {p : Part} {c : Char} (h : (p, c) ∈ escapeLetters) :
    char.reads ('\\' :: c :: rest) =
      some (char.node [p.node [.leaf (some '\\'), .leaf (some c)]], rest) := by
  have hletters : ∀ x ∈ escapeLetters, x.1.productions = [[lit '\\', lit x.2]] ∧
      char.productions[char.productions.idxOf [x.1.ref]]? = some [x.1.ref] ∧
      (char.productions.eraseIdx (char.productions.idxOf [x.1.ref])).all
        (rowRefuses · [.oneOf ['\\'], .oneOf [x.2]]) = true := by
    decide +kernel
  obtain ⟨hp, hi, hothers⟩ := hletters _ h
  have hnamed : p.reads ('\\' :: c :: rest) =
      some (p.node [.leaf (some '\\'), .leaf (some c)], rest) :=
    reads_of_single hp (by rw [row_lit, row_lit, row_nil]; rfl)
  refine reads_of_only _ hi _ hothers ?_ ?_
  · exact beginsIn_oneOf List.mem_cons_self (beginsIn_oneOf List.mem_cons_self rfl)
  · rw [row_ref hnamed, row_nil]
    rfl

end Part

namespace Atom

open Grammar

/-- The classes of the first characters of an atom, as many as tell it from everything else. -/
def beginning : Atom → List Terminal
  | plain _ _ => [.noneOf metaChars]
  | escaped _ _ => [.oneOf ['\\'], .oneOf metaChars]
  | named _ _ _ => [.oneOf ['\\'], .oneOf (escapeLetters.map Prod.snd)]
  | list _ => [.oneOf ['[']]
  | dot => [.oneOf ['.']]
  | backref _ _ => [.oneOf ['\\'], .oneOf digitChars]
  | source _ _ => [.oneOf ['{'], .oneOf ['{'], .oneOf exprAlphabet]
  | numeric _ _ => [.oneOf ['{'], .oneOf ['{'], .oneOf ['=']]

theorem beginsIn_beginning (a : Atom) (rest : List Char) :
    beginsIn a.beginning (a.text ++ rest) = true := by
  cases a with
  | plain c other => exact beginsIn_noneOf other rfl
  | escaped c special => exact beginsIn_oneOf List.mem_cons_self (beginsIn_oneOf special rfl)
  | named p c mem =>
    exact beginsIn_oneOf List.mem_cons_self (beginsIn_oneOf (List.mem_map_of_mem mem) rfl)
  | list l => rfl
  | dot => rfl
  | backref d mem => exact beginsIn_oneOf List.mem_cons_self (beginsIn_oneOf mem rfl)
  | source e m =>
    rw [text, List.cons_append, List.cons_append, List.append_assoc]
    exact e.beginsIn_chars _
  | numeric e ms => rfl

/-- The production of a base that an atom is matched by. -/
def choice : Atom → Nat
  | plain _ _ | escaped _ _ | named _ _ _ | list _ => 0
  | dot => 1
  | backref _ _ => 3
  | source _ _ => 4
  | numeric _ _ => 5

/-- The beginning of an atom leaves no choice between the productions, and no quantifier has it. -/
theorem refuses_beginning (a : Atom) :
    (Part.base.productions.eraseIdx a.choice).all (Part.rowRefuses · a.beginning) = true ∧
      Part.multiplier.refuses a.beginning = true := by
  have h : ∀ x ∈ [(0, [.noneOf metaChars]), (0, [.oneOf ['\\'], .oneOf metaChars]),
      (0, [.oneOf ['\\'], .oneOf (escapeLetters.map Prod.snd)]), (0, [.oneOf ['[']]),
      (1, [.oneOf ['.']]), (3, [.oneOf ['\\'], .oneOf digitChars]),
      (4, [.oneOf ['{'], .oneOf ['{'], .oneOf exprAlphabet]),
      (5, [.oneOf ['{'], .oneOf ['{'], .oneOf ['=']])],
      (Part.base.productions.eraseIdx x.1).all (Part.rowRefuses · x.2) = true ∧
        Part.multiplier.refuses x.2 = true := by
    decide +kernel
  refine h (a.choice, a.beginning) ?_
  cases a <;> simp [choice, beginning]

end Atom

namespace Part

open Grammar PatternText.Symbol

variable {rest : List Char}

theorem reads_backref {d : Char} (hd : d ∈ digitChars) : backref.reads ('\\' :: d :: rest) =
    some (backref.node [.leaf (some '\\'), digit.node [.leaf (some d)]], rest) :=
  reads_of_single rfl (by rw [row_lit, row_ref (reads_digit hd), row_nil]; rfl)

theorem reads_sourceExpr (e : ExprText) (m : Option FirstModifier) :
    sourceExpr.reads ((Atom.source e m).text ++ rest) = some ((Atom.source e m).inner, rest) := by
  have hstop : beginsIn [.oneOf exprEnds] (FirstModifier.optText m ++ '}' :: '}' :: rest) = true := by
    rcases m with _ | _ | _ <;> rfl
  refine reads_of_single rfl ?_
  rw [Atom.text, List.cons_append, List.cons_append, List.append_assoc, List.append_assoc,
    row_lit, row_lit, List.cons_append, List.cons_append, List.nil_append,
    row_ref (reads_expression e hstop), row_ref (reads_optBackrefMod m), row_lit, row_lit, row_nil]
  rfl

theorem reads_numericExpr (e : ExprText) (ms : List NumberModifier) :
    numericExpr.reads ((Atom.numeric e ms).text ++ rest) =
      some ((Atom.numeric e ms).inner, rest) := by
  have hstop : beginsIn [.oneOf exprEnds]
      (NumberModifier.textAll ms ++ '}' :: '}' :: rest) = true := by
    cases ms <;> rfl
  refine reads_of_single rfl ?_
  rw [Atom.text, List.cons_append, List.cons_append, List.cons_append, List.append_assoc,
    List.append_assoc, row_lit, row_lit, row_lit, List.cons_append, List.cons_append,
    List.nil_append, row_ref (reads_expression e hstop), row_ref (reads_optExprMods ms), row_lit,
    row_lit, row_nil]
  rfl

/-- An atom is read in the same way whatever comes after it. -/
theorem reads_base_atom (a : Atom) : base.reads (a.text ++ rest) = some (base.node [a.inner], rest) := by
  have hchoice (p : Part) (hi : base.productions[a.choice]? = some [p.ref])
      (h : p.reads (a.text ++ rest) = some (a.inner, rest)) :
      base.reads (a.text ++ rest) = some (base.node [a.inner], rest) := by
    refine reads_of_only a.choice hi _ a.refuses_beginning.1 (a.beginsIn_beginning rest) ?_
    rw [row_ref h, row_nil]
    rfl
  cases a with
  | plain c other => exact hchoice .char rfl (reads_char_plain other)
  | escaped c special => exact hchoice .char rfl (reads_char_escaped special)
  | named p c mem => exact hchoice .char rfl (reads_char_named mem)
  | list l => exact hchoice .char rfl (reads_char_list l)
  | dot => exact hchoice .dot rfl reads_dot
  | backref d mem => exact hchoice .backref rfl (reads_backref mem)
  | source e m => exact hchoice .sourceExpr rfl (reads_sourceExpr e m)
  | numeric e ms => exact hchoice .numericExpr rfl (reads_numericExpr e ms)

/-- No quantifier begins where an atom does. -/
theorem reads_multiplier_atom (a : Atom) : multiplier.reads (a.text ++ rest) = none :=
  reads_eq_none _ a.refuses_beginning.2 (a.beginsIn_beginning rest)

end Part

end PatternText
