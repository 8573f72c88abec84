import PatternText.Proofs.Grammar.Queries
import PatternText.Proofs.Pattern.Nodes
import PatternText.Proofs.Program.Shift

/-! The translation of syntax. Most parts are passed over on the walk through a tree; a base makes one
step of its own, a quantifier repeats the step made last once its bounds are checked, and alternatives
make one branch of each of their rows. -/

namespace PatternText

open ParseTree PatternText.Part

/-! ### Names -/

/-- The parts that the walk passes over. -/
def passedOver : List Part := [.regex, .term, .factor, .base, .char, .multipliers, .multiplier]

/-- The construct that the nodes of a part stand for. -/
def Part.meaning? : Part → Option Construct
  | .alternatives => some .alternatives
  | .parens => some .group
  | .zeroOrMore => some .zeroOrMore
  | .zeroOrOne => some .zeroOrOne
  | .oneOrMore => some .oneOrMore
  | .numberOf => some .exactly
  | .numberOrMoreOf => some .atLeast
  | .numberRangeOf => some .between
  | .dot => some (.anyOf .base)
  | .inclusiveList => some .inclusiveList
  | .exclusiveList => some .exclusiveList
  | .nonMetaChar => some .literal
  | .sourceExpr => some .source
  | .numericExpr => some .numeric
  | .backref => some .backref
  | .escMetaChar => some .escaped
  | .whitespace => some (.anyOf .whitespace)
  | .nonWhitespace => some (.anyOf .nonWhitespace)
  | .digitAlias => some (.anyOf .digit)
  | .nonDigitAlias => some (.anyOf .nonDigit)
  | .wordChar => some (.anyOf .word)
  | .nonWordChar => some (.anyOf .nonWord)
  | _ => none

-- the names of constructs are compared here and nowhere else
theorem Part.ofName?_title : ∀ i < 49,
    Construct.ofName? (Part.ofNat i).title = (Part.ofNat i).meaning? := by
  decide +kernel

theorem construct?_node (p : Part) (ts : List ParseTree) : (p.node ts).construct? = p.meaning? := by
  have hnumber : p.ctorIdx < 49 := by
    cases p <;> decide
  have hname := Part.ofName?_title p.ctorIdx hnumber
  rw [p.ofNat_ctorIdx] at hname
  exact hname

theorem construct?_passedOver {p : Part} (hp : p ∈ passedOver) (ts : List ParseTree) :
    (p.node ts).construct? = none := by
  have h : ∀ p ∈ passedOver, p.meaning? = none := by decide
  rw [construct?_node, h p hp]

theorem bears_eq_false {p q : Part} (hne : p ≠ q) (ts : List ParseTree) :
    (p.node ts).bears q.title = false :=
  (bears_node p q ts).trans (decide_eq_false hne)

namespace ExprText

/-- The expression that the text reads as. -/
def expression (e : ExprText) : Expression := Expression.ofText (String.ofList e.chars)

end ExprText

namespace Quantifier

/-- The text of the quantifier. -/
def toString (x : Quantifier) : String := String.ofList x.text

/-- How often the quantifier repeats. -/
def bounds : Quantifier → Bounds
  | zeroOrMore => .zeroOrMore
  | zeroOrOne => .zeroOrOne
  | oneOrMore => .oneOrMore
  | exactly e => .exactly e.expression
  | atLeast e => .atLeast e.expression
  | between e f => .between e.expression f.expression

def construct : Quantifier → Construct
  | zeroOrMore => .zeroOrMore
  | zeroOrOne => .zeroOrOne
  | oneOrMore => .oneOrMore
  | exactly _ => .exactly
  | atLeast _ => .atLeast
  | between _ _ => .between

end Quantifier

/-! ### Texts of trees -/

theorem tree_chars_of_reads {p : Part} {text rest : List Char} {tree : ParseTree}
    (h : p.reads (text ++ rest) = some (tree, rest)) : tree.chars = text :=
  (List.append_cancel_right (Grammar.spells_longest patternGrammar _ _ _ _ h)).symm

theorem chars_of_reads {p : Part} {text rest : List Char} {tree : ParseTree}
    (h : p.reads (text ++ rest) = some (tree, rest)) : tree.text = String.ofList text := by
  rw [text_eq, tree_chars_of_reads h]

theorem ExprText.text_tree (e : ExprText) : e.tree.text = String.ofList e.chars :=
  chars_of_reads (reads_expression e (rfl : Grammar.beginsIn [.oneOf exprEnds] ['}'] = true))

theorem Quantifier.text_node (x : Quantifier) : (x.part.node x.trees).text = x.toString :=
  chars_of_reads (reads_part x : x.part.reads (x.text ++ []) = _)

theorem ExprText.bears_tree (e : ExprText) : e.tree.bears "EXPRESSION" = true := by
  obtain ⟨chars, hne, hall⟩ := e
  cases chars with
  | nil => exact absurd rfl hne
  | cons c chars => exact beq_self_eq_true _

theorem lacks_leaves (name : String) (cs : List Char) : Lacks name (leaves cs) := by
  intro t ht u hu
  obtain ⟨c, -, rfl⟩ := List.mem_map.1 ht
  rw [eq_of_liesIn_leaf hu]
  rfl

/-- Trees that lack the name add nothing to what is collected. -/
theorem collectNamed_of_lacks {name : String} {us : List ParseTree} (h : Lacks name us)
    (found : Array ParseTree) : collectNamed name found us = found := by
  fun_induction collectNamed name found us with
  | case1 found => rfl
  | case2 found t us hbears ih =>
    have hother := h t List.mem_cons_self t (liesIn_self t)
    exact absurd hbears (Bool.eq_false_iff.1 hother)
  | case3 found t us hother ih => exact ih h.below

theorem firstNamed_of_lacks {name : String} {us : List ParseTree} (h : Lacks name us) :
    firstNamed name us = none := by
  fun_induction firstNamed name us with
  | case1 => rfl
  | case2 t us hbears =>
    have hother := h t List.mem_cons_self t (liesIn_self t)
    exact absurd hbears (Bool.eq_false_iff.1 hother)
  | case3 t us hother ih => exact ih h.below

theorem firstNamed_leaves (name : String) (cs : List Char) (ts : List ParseTree) :
    firstNamed name (leaves cs ++ ts) = firstNamed name ts := by
  rw [firstNamed_append, firstNamed_of_lacks (lacks_leaves name cs), Option.none_or]

/-- The text of a node that stands behind the leaves of another one is found by its name. -/
theorem textOf_behind_leaves {p q : Part} (hne : p ≠ q) {t : ParseTree}
    (ht : t.bears q.title = true) (cs : List Char) (ts : List ParseTree) :
    (p.node (leaves cs ++ t :: ts)).textOf q.title = t.text := by
  have hfirst : (p.node (leaves cs ++ t :: ts)).findFirst q.title = some t := by
    rw [findFirst, firstNamed_passes (bears_eq_false hne _), List.append_nil]
    exact (firstNamed_leaves _ cs _).trans (firstNamed_bears ht ts)
  rw [textOf, hfirst]
  rfl

theorem textOf_behind_backslash {p q : Part} (hne : p ≠ q) (c : Char) :
    (p.node [.leaf (some '\\'), q.node [.leaf (some c)]]).textOf q.title = String.ofList [c] := by
  have htext : (q.node [.leaf (some c)]).text = String.ofList [c] := by
    rw [text_eq]
    rfl
  rw [← htext]
  exact textOf_behind_leaves hne (beq_self_eq_true _) ['\\'] []

theorem Quantifier.expressions_node (x : Quantifier) : (x.part.node x.trees).expressions =
    match x with
    | .exactly e | .atLeast e => [e.expression]
    | .between e f => [e.expression, f.expression]
    | _ => [] := by
  have hother : (x.part.node x.trees).bears "EXPRESSION" = false :=
    bears_eq_false (q := .expression) (by intro h; cases x <;> cases h) x.trees
  have hchildren : (x.part.node x.trees).children = x.trees := rfl
  rw [expressions, findAll, collectNamed_passes hother, hchildren, List.append_nil]
  cases x with
  | zeroOrMore | zeroOrOne | oneOrMore =>
    rw [trees, leaves, List.map_singleton, collectNamed_leaf, collectNamed]
    rfl
  | exactly e =>
    rw [trees, collectNamed_leaf, collectNamed_bears e.bears_tree, collectNamed_leaf, collectNamed]
    simp only [Array.toList_push, List.map_append, List.map_singleton, e.text_tree]
    rfl
  | atLeast e =>
    rw [trees, collectNamed_leaf, collectNamed_bears e.bears_tree, collectNamed_leaf,
      collectNamed_leaf, collectNamed]
    simp only [Array.toList_push, List.map_append, List.map_singleton, e.text_tree]
    rfl
  | between e f =>
    rw [trees, collectNamed_leaf, collectNamed_bears e.bears_tree, collectNamed_leaf,
      collectNamed_bears f.bears_tree, collectNamed_leaf, collectNamed]
    simp only [Array.toList_push, List.map_append, List.map_singleton, e.text_tree, f.text_tree]
    rfl

/-! ### Steps -/

section Steps

variable {config : Config} {groups opened : Nat} {made out : List Step} {ts us : List ParseTree}

theorem addForest_leaf (c : Option Char) :
    addForest config groups made (.leaf c :: ts) = addForest config groups made ts :=
  addForest_none rfl

theorem addForest_passedOver {p : Part} (hp : p ∈ passedOver) :
    addForest config groups made (p.node us :: ts) = addForest config groups made (us ++ ts) :=
  addForest_none (construct?_passedOver hp us)

/-- What comes after a tree can be replaced by what makes the same steps. -/
theorem addForest_cons_congr {t : ParseTree} {ts' : List ParseTree}
    (h : ∀ groups made, addForest config groups made ts = addForest config groups made ts') :
    addForest config groups made (t :: ts) = addForest config groups made (t :: ts') := by
  rw [← List.singleton_append, ← List.singleton_append (l := ts'), addForest_append,
    addForest_append]
  simp only [h]

theorem addForest_rowTree {p : Part} (hp : p ∈ passedOver) :
    addForest config groups made (p.rowTree us :: ts) = addForest config groups made (us ++ ts) := by
  induction us generalizing groups made with
  | nil =>
    rw [rowTree, addForest_passedOver hp, List.singleton_append, addForest_leaf, List.nil_append]
  | cons u us ih =>
    rw [rowTree, addForest_passedOver hp]
    exact addForest_cons_congr fun _ _ => ih

/-- A quantifier repeats the step made last if its bounds can be met. -/
theorem addForest_quantifier (x : Quantifier) :
    addForest config groups made (x.tree :: ts) =
      match Step.repeatCounted config made x.bounds x.toString with
      | .ok made => addForest config groups made ts
      | .error e => .error e := by
  have hname : (x.part.node x.trees).construct? = some x.construct := by
    rw [construct?_node]
    cases x <;> rfl
  have hplain : Step.addPlain config made (x.part.node x.trees) x.construct =
      Step.repeatCounted config made x.bounds x.toString := by
    have htext := x.text_node
    have hexpressions := x.expressions_node
    cases x with
    | zeroOrMore | zeroOrOne | oneOrMore =>
      rw [Quantifier.construct, Step.addPlain, htext]
      rfl
    | exactly _ | atLeast _ | between _ _ =>
      rw [Quantifier.construct, Step.addPlain, htext, hexpressions]
      rfl
  rw [Quantifier.tree, addForest_passedOver (by decide), List.singleton_append,
    addForest_construct hname, addConstruct_plain, hplain]
  · cases Step.repeatCounted config made x.bounds x.toString <;> rfl
  · cases x <;> simp [Quantifier.construct]
  · cases x <;> simp [Quantifier.construct]

/-! ### Operands -/

/-- The step offers a choice between branches. -/
def Step.isAlternation : Step → Bool
  | .alternation _ => true
  | _ => false

/-- The steps made are one more than before, and the new one is no alternation. -/
def MakesOne (made out : List Step) : Prop := ∃ step, out = step :: made ∧ step.isAlternation = false

/-- The parts of atoms that the walk makes steps of. -/
def operandParts : List Part :=
  [.nonMetaChar, .escMetaChar, .whitespace, .nonWhitespace, .digitAlias, .nonDigitAlias, .wordChar,
    .nonWordChar, .exclusiveList, .inclusiveList, .dot, .backref, .sourceExpr, .numericExpr]

/-- The parts of atoms whose step reads no number. -/
def plainParts : List Part :=
  [.nonMetaChar, .escMetaChar, .whitespace, .nonWhitespace, .digitAlias, .nonDigitAlias, .wordChar,
    .nonWordChar, .exclusiveList, .inclusiveList, .dot, .sourceExpr]

theorem Atom.inner_cases (a : Atom) :
    (∃ p ∈ plainParts, ∃ us, a.inner = p.node us ∨ a.inner = Part.char.node [p.node us]) ∨
      (∃ d hd, a = .backref d hd) ∨ ∃ e ms, a = .numeric e ms := by
  cases a with
  | plain c _ => exact .inl ⟨.nonMetaChar, by decide, _, .inr rfl⟩
  | escaped c _ => exact .inl ⟨.escMetaChar, by decide, _, .inr rfl⟩
  | named p c mem =>
    have h : ∀ x ∈ escapeLetters, x.1 ∈ plainParts := by decide
    exact .inl ⟨p, h _ mem, _, .inr rfl⟩
  | list l =>
    cases hnegated : l.negated with
    | false =>
      refine .inl ⟨.inclusiveList, by decide, .leaf (some '[') :: listTrees l.chars, .inr ?_⟩
      rw [inner, CharList.tree, hnegated]
      rfl
    | true =>
      refine .inl ⟨.exclusiveList, by decide,
        .leaf (some '[') :: .leaf (some '^') :: listTrees l.chars, .inr ?_⟩
      rw [inner, CharList.tree, hnegated]
      rfl
  | dot => exact .inl ⟨.dot, by decide, _, .inl rfl⟩
  | source e m => exact .inl ⟨.sourceExpr, by decide, _, .inl rfl⟩
  | backref d hd => exact .inr (.inl ⟨d, hd, rfl⟩)
  | numeric e ms => exact .inr (.inr ⟨e, ms, rfl⟩)

theorem Atom.exists_inner (a : Atom) :
    ∃ p ∈ operandParts, ∃ us, a.inner = p.node us ∨ a.inner = Part.char.node [p.node us] := by
  have hplain : ∀ p ∈ plainParts, p ∈ operandParts := by decide
  obtain ⟨p, hp, us, hinner⟩ | ⟨d, hd, rfl⟩ | ⟨e, ms, rfl⟩ := a.inner_cases
  · exact ⟨p, hplain p hp, us, hinner⟩
  · exact ⟨.backref, by decide, _, .inl rfl⟩
  · exact ⟨.numericExpr, by decide, _, .inl rfl⟩

theorem Step.isAlternation_of_isSimple {step : Step} (h : step.isSimple = true) :
    step.isAlternation = false := by
  cases step with
  | literal _ | oneOf _ | backref _ | source _ _ _ | numeric _ _ => rfl
  | group _ _ | repetition _ _ _ | alternation _ => cases h

theorem addPlain_operand {t : ParseTree} {c : Construct} (hc : c.isOperand = true)
    (h : Step.addPlain config made t c = .ok out) :
    ∃ step, out = step :: made ∧ step.isSimple = true := by
  cases Step.makes_of_addPlain h with
  | simple hsimple => exact ⟨_, rfl, hsimple⟩
  | nothing hother | repetition hother =>
    rw [hc] at hother
    cases hother

theorem addForest_operand {p : Part} (hp : p ∈ operandParts)
    (h : addForest config groups made [p.node us] = .ok (out, opened)) :
    ∃ step, out = step :: made ∧ step.isSimple = true := by
  have hconstruct : ∀ p ∈ operandParts, p.meaning?.any Construct.isOperand = true := by decide
  obtain ⟨c, hmeaning, hc⟩ := (Option.any_eq_true _ _).1 (hconstruct p hp)
  have hname : (p.node us).construct? = some c := (construct?_node p us).trans hmeaning
  have hplain : addConstruct config groups made (p.node us) c = _ :=
    addConstruct_plain (by rintro rfl; cases hc) (by rintro rfl; cases hc)
  rw [addForest_construct hname, hplain] at h
  cases hmade : Step.addPlain config made (p.node us) c with
  | error e =>
    rw [hmade] at h
    cases h
  | ok out' =>
    rw [hmade] at h
    dsimp only at h
    rw [addForest] at h
    cases h
    exact addPlain_operand hc hmade

/-- An atom makes one simple step. -/
theorem addForest_atom (a : Atom)
    (h : addForest config groups made [(Base.atom a).tree] = .ok (out, opened)) :
    ∃ step, out = step :: made ∧ step.isSimple = true := by
  rw [Base.tree, addForest_passedOver (by decide), List.append_nil] at h
  obtain ⟨p, hp, us, hinner | hinner⟩ := a.exists_inner
  · rw [hinner] at h
    exact addForest_operand hp h
  · rw [hinner, addForest_passedOver (by decide), List.append_nil] at h
    exact addForest_operand hp h

/-- A group is compiled from the pattern inside it. -/
theorem addForest_group (r : Regex) :
    addForest config groups made ((Base.group r).tree :: ts) =
      match addForest config (groups + 1) [] [r.tree] with
      | .ok (body, opened) => addForest config opened (.group groups body.reverse :: made) ts
      | .error e => .error e := by
  have hregex : r.tree.bears "REGEX" = true := by
    cases r <;> exact beq_self_eq_true "REGEX"
  have hinner : firstNamed "REGEX"
      (parens.node [.leaf (some '('), r.tree, .leaf (some ')')]).children = some r.tree :=
    (firstNamed_leaf _ _ _).trans (firstNamed_bears hregex _)
  rw [Base.tree, addForest_passedOver (by decide), List.singleton_append,
    addForest_construct (construct?_node parens _), addConstruct_group hinner]
  cases addForest config (groups + 1) [] [r.tree] <;> rfl

/-- A base makes one step. -/
theorem addForest_base (b : Base) (h : addForest config groups made [b.tree] = .ok (out, opened)) :
    MakesOne made out := by
  cases b with
  | atom a =>
    obtain ⟨step, rfl, hsimple⟩ := addForest_atom a h
    exact ⟨step, rfl, Step.isAlternation_of_isSimple hsimple⟩
  | group r =>
    rw [addForest_group] at h
    cases hbody : addForest config (groups + 1) [] [r.tree] with
    | error e =>
      rw [hbody] at h
      cases h
    | ok m =>
      rw [hbody] at h
      dsimp only at h
      rw [addForest] at h
      cases h
      exact ⟨_, rfl, rfl⟩

theorem addForest_quantifiers (xs : List Quantifier) {start : List Step} (hmade : MakesOne start made)
    (h : addForest config groups made (xs.map Quantifier.tree) = .ok (out, opened)) :
    MakesOne start out := by
  induction xs generalizing made with
  | nil =>
    rw [List.map_nil, addForest] at h
    cases h
    exact hmade
  | cons x xs ih =>
    obtain ⟨step, rfl, -⟩ := hmade
    rw [List.map_cons, addForest_quantifier, Step.repeatCounted] at h
    cases hcheck : x.bounds.checkConstant config.upperBound x.toString with
    | error cause =>
      rw [hcheck] at h
      cases h
    | ok u =>
      rw [hcheck] at h
      exact ih ⟨.repetition step x.bounds x.toString, rfl, rfl⟩ h

theorem addForest_factorTree (b : ParseTree) (xs : List Quantifier) :
    addForest config groups made (factorTree b xs :: ts) =
      addForest config groups made (b :: (xs.map Quantifier.tree ++ ts)) := by
  rw [factorTree, addForest_passedOver (by decide)]
  exact addForest_cons_congr fun _ _ => addForest_rowTree (by decide)

/-- A base with its quantifiers makes one step. -/
theorem addForest_factor {b : Base} {xs : List Quantifier}
    (h : addForest config groups made [factorTree b.tree xs] = .ok (out, opened)) :
    MakesOne made out := by
  rw [addForest_factorTree, List.append_nil, ← List.singleton_append] at h
  obtain ⟨mid, between, hbase, hquantifiers⟩ := exists_of_addForest_append h
  exact addForest_quantifiers xs (addForest_base b hbase) hquantifiers

/-- The steps of a row are no alternations. -/
theorem addForest_factors (t : Term) {groups opened : Nat} {made out : List Step}
    (h : addForest config groups made t.factors = .ok (out, opened)) :
    ∃ steps, out = steps ++ made ∧ ∀ step ∈ steps, step.isAlternation = false := by
  cases t with
  | nil =>
    rw [Term.factors, addForest] at h
    cases h
    exact ⟨[], rfl, List.forall_mem_nil _⟩
  | cons b xs t =>
    rw [Term.factors, ← List.singleton_append] at h
    obtain ⟨mid, between, hfactor, htail⟩ := exists_of_addForest_append h
    obtain ⟨step, rfl, hother⟩ := addForest_factor hfactor
    obtain ⟨steps, rfl, hall⟩ := addForest_factors t htail
    refine ⟨steps ++ [step], (List.append_assoc steps [step] made).symm, ?_⟩
    intro s hs
    rcases List.mem_append.1 hs with hs | hs
    · exact hall s hs
    · rw [List.mem_singleton.1 hs]
      exact hother

/-! ### Rows and alternatives -/

/-- The rows of a pattern from left to right. -/
def Regex.rows : Regex → List Term
  | .term t => [t]
  | .bar t r => t :: r.rows

theorem addForest_row (t : Term) :
    addForest config groups made [t.tree] = addForest config groups made t.factors := by
  rw [Term.tree, addForest_rowTree (by decide), List.append_nil]

theorem Term.bears_tree (t : Term) : t.tree.bears "TERM" = true := by
  cases t <;> exact beq_self_eq_true "TERM"

/-- The outermost rows inside a pattern are its own rows, in order. -/
theorem collectNamed_rows (r : Regex) (found : Array ParseTree) :
    collectNamed "TERM" found [r.tree] = found ++ (r.rows.map Term.tree).toArray := by
  have hother {p : Part} (hne : p ≠ .term) (ts : List ParseTree) : (p.node ts).bears "TERM" = false :=
    bears_eq_false (q := .term) hne ts
  cases r with
  | term t =>
    rw [Regex.tree, collectNamed_passes (hother (p := .regex) (by decide) _)]
    show collectNamed "TERM" found [t.tree] = _
    rw [collectNamed_bears t.bears_tree, collectNamed]
    simp [Regex.rows]
  | bar t r =>
    rw [Regex.tree, collectNamed_passes (hother (p := .regex) (by decide) _)]
    show collectNamed "TERM" found
      [alternatives.node [t.tree, .leaf (some '|'), r.tree]] = _
    rw [collectNamed_passes (hother (p := .alternatives) (by decide) _)]
    show collectNamed "TERM" found [t.tree, .leaf (some '|'), r.tree] = _
    rw [collectNamed_bears t.bears_tree, collectNamed_leaf, collectNamed_rows r]
    simp [Regex.rows]

theorem addForest_term (t : Term) :
    addForest config groups made [(Regex.term t).tree] = addForest config groups made t.factors := by
  rw [Regex.tree, addForest_passedOver (by decide), List.append_nil]
  exact addForest_row t

theorem addForest_bar (t : Term) (r : Regex) :
    addForest config groups made [(Regex.bar t r).tree] =
      match addBranches config groups [] ((Regex.bar t r).rows.map Term.tree) with
      | .ok (branches, groups) => .ok (.alternation branches.reverse :: made, groups)
      | .error e => .error e := by
  have hrows : (collectNamed "TERM" #[]
      (alternatives.node [t.tree, .leaf (some '|'), r.tree]).children).toList =
      (Regex.bar t r).rows.map Term.tree := by
    show (collectNamed "TERM" #[] [t.tree, .leaf (some '|'), r.tree]).toList = _
    rw [collectNamed_bears t.bears_tree, collectNamed_leaf, collectNamed_rows r]
    simp [Regex.rows]
  rw [Regex.tree, addForest_passedOver (by decide), List.append_nil]
  show addForest config groups made [alternatives.node [t.tree, .leaf (some '|'), r.tree]] = _
  rw [addForest_construct (construct?_node alternatives _), addConstruct, hrows]
  cases addBranches config groups [] ((Regex.bar t r).rows.map Term.tree) with
  | error e => rfl
  | ok m => exact addForest.eq_1 _ _ _

theorem addBranches_append (groups : Nat) (made : List (List Step)) (ts us : List ParseTree) :
    addBranches config groups made (ts ++ us) =
      match addBranches config groups made ts with
      | .ok (made, groups) => addBranches config groups made us
      | .error e => .error e := by
  induction ts generalizing groups made with
  | nil => rw [List.nil_append, addBranches]
  | cons t ts ih =>
    rw [List.cons_append, addBranches, addBranches]
    cases addForest config groups [] [t] with
    | error e => rfl
    | ok m => exact ih _ _

end Steps

/-! ### Programs -/

/-- The branches between which steps choose: those of the alternation that is their only step, or the
steps themselves as a single branch. -/
def branchesOf : List Step → List (List Step)
  | [.alternation branches] => branches
  | steps => [steps]

theorem branchesOf_eq_singleton {steps : List Step} (h : ∀ step ∈ steps, step.isAlternation = false) :
    branchesOf steps = [steps] := by
  fun_cases branchesOf steps with
  | case1 branches =>
    have hfirst := h _ List.mem_cons_self
    cases hfirst
  | case2 => rfl

/-- The rows of a pattern make its branches. -/
theorem addBranches_rows {config : Config} {groups opened : Nat} {made : List Step} {r : Regex}
    (h : addForest config groups [] [r.tree] = .ok (made, opened)) :
    addBranches config groups [] (r.rows.map Term.tree) =
      .ok ((branchesOf made.reverse).reverse, opened) := by
  cases r with
  | term t =>
    rw [addForest_term] at h
    obtain ⟨steps, rfl, hall⟩ := addForest_factors t h
    have hother : ∀ step ∈ (steps ++ []).reverse, step.isAlternation = false := fun step hstep =>
      hall step (by simpa using hstep)
    rw [branchesOf_eq_singleton hother, Regex.rows, List.map_singleton, addBranches, addForest_row,
      h]
    exact addBranches.eq_1 _ _ _
  | bar t r =>
    rw [addForest_bar] at h
    cases hbranches : addBranches config groups [] ((Regex.bar t r).rows.map Term.tree) with
    | error e =>
      rw [hbranches] at h
      cases h
    | ok m =>
      rw [hbranches] at h
      cases h
      rw [List.reverse_singleton, branchesOf, List.reverse_reverse]

end PatternText
