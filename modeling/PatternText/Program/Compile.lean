import PatternText.Pattern.Rules
import PatternText.Program.Basic
import PatternText.Program.Error
import PatternText.Settings

/-! Programs from parse trees. A walk through the tree looks for the nodes whose name is that of a
construct; each of them makes one step, and below all other nodes the walk goes on. A quantifier takes
the step made last as its operand. Groups are numbered in the order in which they open. Bounds that
refer to no variable are checked here, others each time they are needed. -/

namespace PatternText

/-- The constructs that make a step. -/
inductive Construct where
  | literal
  | escaped
  | anyOf (alphabet : Alphabet)
  | inclusiveList
  | exclusiveList
  | group
  | backref
  | source
  | numeric
  | zeroOrMore
  | zeroOrOne
  | oneOrMore
  | exactly
  | atLeast
  | between
  | alternatives
  deriving DecidableEq, Repr

namespace Construct

/-- The construct that a node of this name stands for. -/
def ofName? : String → Option Construct
  | "ALTERNATIVES" => some alternatives
  | "BACKREF" => some backref
  | "DIGIT_ALIAS" => some (anyOf .digit)
  | "DOT" => some (anyOf .base)
  | "ESC_META_CHAR" => some escaped
  | "EXCLUSIVE_CHAR_LIST" => some exclusiveList
  | "INCLUSIVE_CHAR_LIST" => some inclusiveList
  | "NON_DIGIT_ALIAS" => some (anyOf .nonDigit)
  | "NON_META_CHAR" => some literal
  | "NON_WHITESPACE" => some (anyOf .nonWhitespace)
  | "NON_WORD_CHAR" => some (anyOf .nonWord)
  | "NUMBER_OF" => some exactly
  | "NUMBER_OR_MORE_OF" => some atLeast
  | "NUMBER_RANGE_OF" => some between
  | "NUMERIC_EXPR" => some numeric
  | "ONE_OR_MORE" => some oneOrMore
  | "PARENS" => some group
  | "SRCBACKREF_EXPR" => some source
  | "WHITESPACE" => some (anyOf .whitespace)
  | "WORD_CHAR" => some (anyOf .word)
  | "ZERO_OR_MORE" => some zeroOrMore
  | "ZERO_OR_ONE" => some zeroOrOne
  | _ => none

end Construct

namespace ParseTree

/-- The construct that a tree stands for. -/
def construct? (t : ParseTree) : Option Construct :=
  t.name?.bind Construct.ofName?

/-- The text of the first tree that bears a name, empty if none does. -/
def textOf (t : ParseTree) (name : String) : String :=
  ((t.findFirst name).map text).getD ""

/-- The expressions in a construct, in order. -/
def expressions (t : ParseTree) : List Expression :=
  (t.findAll "EXPRESSION").map fun e => Expression.ofText e.text

/-- The text of a child, empty if there is no such child. -/
def childText (t : ParseTree) (i : Nat) : String :=
  ((t.children[i]?).map text).getD ""

/-- The character of a list item, without the backslash of an escaped bracket. -/
def itemChar (item : ParseTree) : String :=
  match item.findFirst "ESC_META_CHAR_SPEC" with
  | some escaped => escaped.childText 1
  | none => item.text

/-- The spec of a list item: a range by its two ends, or a single character. -/
def itemSpec (item : ParseTree) : String :=
  let charAt (t : ParseTree) (i : Nat) : String := ((t.children[i]?).map itemChar).getD ""
  match item.findFirst "RANGE" with
  | some range => charAt range 0 ++ "-" ++ charAt range 2
  | none => charAt item 0

/-- The characters of a list that belong to the base alphabet, in listing order. -/
def listedChars (config : Config) (t : ParseTree) : CharSet :=
  (CharSet.ofSpecs ((t.findAll "CHAR_SPEC").map itemSpec)).inter config.base

/-- The format that the modifiers of a computed number describe; the last of each kind counts. -/
def numberFormat (t : ParseTree) : Except CompileError NumberFormat :=
  (t.findAll "EXPR_MOD").foldlM (fun format modifier => do
    let text := modifier.text
    if text.startsWith "fixed(" then
      let digits := modifier.textOf "NUMBER"
      match readWord? digits.toList with
      | some places => pure { format with places := some places }
      | none => throw (.number (.invalidNumber digits))
    else if text == "simplify" then pure { format with simplify := true }
    else pure format) {}

/-- The modifier of a source reference. -/
def firstModifier? (t : ParseTree) : Option FirstModifier :=
  if (t.findFirst "BACKREF_MOD_FIRST").isSome then some .first
  else if (t.findFirst "BACKREF_MOD_MIN_FIRST").isSome then some .minusFirst
  else none

end ParseTree

namespace Bounds

/-- Constant bounds that can never be met are refused: a least number above the upper bound, or a
greatest number below the least one. -/
def checkConstant (upperBound : UInt64) (construct : String) : Bounds → Except NumberError Unit
  | atLeast least =>
    match least.constant?.bind Exact.ofFloat? with
    | some n =>
      if !n.isBelowZero && upperBound < n.toWord then
        throw (.minimumAboveUpperBound n.toWord upperBound construct)
      else pure ()
    | none => pure ()
  | between least most =>
    match least.constant?.bind Exact.ofFloat?, most.constant?.bind Exact.ofFloat? with
    | some n, some m => if m.toInt < n.toInt then throw (.boundsOutOfOrder construct) else pure ()
    | _, _ => pure ()
  | _ => pure ()

end Bounds

namespace Step

/-- The repetition of the step made last, which it replaces. -/
def repeatLast (made : List Step) (bounds : Bounds) (construct : String) :
    Except CompileError (List Step) :=
  match made with
  | operand :: made => .ok (repetition operand bounds construct :: made)
  | [] => .error (.missingOperand construct)

/-- The repetition of the step made last with counted bounds, once they are checked. -/
def repeatCounted (config : Config) (made : List Step) (bounds : Bounds) (construct : String) :
    Except CompileError (List Step) :=
  match bounds.checkConstant config.upperBound construct with
  | .ok () => repeatLast made bounds construct
  | .error cause => .error (.number cause)

/-- The steps after a construct that holds no steps of its own, given those made before it, the last
first. -/
def addPlain (config : Config) (made : List Step) (t : ParseTree) :
    Construct → Except CompileError (List Step)
  | .literal => .ok (literal t.text :: made)
  | .escaped => .ok (literal (t.textOf "META_CHAR") :: made)
  | .anyOf alphabet => .ok (oneOf (config.alphabet alphabet) :: made)
  | .inclusiveList => .ok (oneOf (t.listedChars config) :: made)
  | .exclusiveList => .ok (oneOf (config.base.diff (t.listedChars config)) :: made)
  | .backref =>
    let digit := t.textOf "DIGIT"
    match readWord? digit.toList with
    | some place => .ok (backref place :: made)
    | none => .error (.number (.invalidNumber digit))
  | .source => .ok (source (t.expressions.headD default) t.firstModifier? t.text :: made)
  | .numeric => do
    let format ← t.numberFormat
    return numeric (t.expressions.headD default) format :: made
  | .zeroOrMore => repeatLast made .zeroOrMore t.text
  | .zeroOrOne => repeatLast made .zeroOrOne t.text
  | .oneOrMore => repeatLast made .oneOrMore t.text
  | .exactly => repeatCounted config made (.exactly (t.expressions.headD default)) t.text
  | .atLeast => repeatCounted config made (.atLeast (t.expressions.headD default)) t.text
  | .between =>
    let operands := t.expressions
    let bounds := .between (operands.headD default) (operands.tail.headD default)
    repeatCounted config made bounds t.text
  | .group | .alternatives => .ok made

end Step

namespace ParseTree

private theorem sizeOf_push (ts : List ParseTree) (t : ParseTree) :
    sizeOf (ts ++ [t]) = sizeOf ts + sizeOf t + 1 := by
  induction ts with
  | nil => simp
  | cons u ts ih => simp only [List.cons_append, List.cons.sizeOf_spec, ih]; omega

/-- What is found in a forest is no larger than the forest. -/
theorem sizeOf_collectNamed_le (name : String) (found : Array ParseTree) (ts : List ParseTree) :
    sizeOf (collectNamed name found ts).toList + 1 ≤ sizeOf found.toList + sizeOf ts := by
  fun_induction collectNamed name found ts with
  | case1 found => simp
  | case2 found t ts h ih =>
    rw [Array.toList_push, sizeOf_push] at ih
    simp only [List.cons.sizeOf_spec]
    omega
  | case3 found t ts h ih =>
    have := sizeOf_children_append_lt t ts
    omega

theorem sizeOf_outermost_le (name : String) (ts : List ParseTree) :
    sizeOf (collectNamed name #[] ts).toList ≤ sizeOf ts := by
  have := sizeOf_collectNamed_le name #[] ts
  have : sizeOf (#[] : Array ParseTree).toList = 1 := rfl
  omega

theorem sizeOf_firstNamed_lt {name : String} {ts : List ParseTree} {u : ParseTree}
    (h : firstNamed name ts = some u) : sizeOf u < sizeOf ts := by
  fun_induction firstNamed name ts with
  | case1 => simp at h
  | case2 t ts ht =>
    cases h
    simp only [List.cons.sizeOf_spec]
    omega
  | case3 t ts ht ih =>
    have := sizeOf_children_append_lt t ts
    have := ih h
    omega

mutual

/-- The steps of a forest after those made before it, the last first, and the number of groups that
have opened so far. -/
def addForest (config : Config) (groups : Nat) (made : List Step) :
    List ParseTree → Except CompileError (List Step × Nat)
  | [] => .ok (made, groups)
  | t :: ts =>
    match t.construct? with
    | none => addForest config groups made (t.children ++ ts)
    | some c =>
      match addConstruct config groups made t c with
      | .ok (made, groups) => addForest config groups made ts
      | .error e => .error e
termination_by ts => (sizeOf ts, 1)
decreasing_by
  · exact Prod.Lex.left _ _ (sizeOf_children_append_lt t ts)
  · by_cases h : sizeOf [t] < sizeOf (t :: ts)
    · exact Prod.Lex.left _ _ h
    · have : sizeOf [t] = sizeOf (t :: ts) := by
        cases ts with
        | nil => rfl
        | cons _ _ =>
          simp only [List.cons.sizeOf_spec, List.nil.sizeOf_spec] at h ⊢
          omega
      rw [this]
      exact Prod.Lex.right _ (by omega)
  · exact Prod.Lex.left _ _ (sizeOf_tail_lt t ts)

/-- The steps after one construct. A group is compiled from the first pattern inside it, alternatives
from the outermost rows of factors inside them. -/
def addConstruct (config : Config) (groups : Nat) (made : List Step) (t : ParseTree) (c : Construct) :
    Except CompileError (List Step × Nat) :=
  match c with
  | .group =>
    match h : firstNamed "REGEX" t.children with
    | some inner =>
      match addForest config (groups + 1) [] [inner] with
      | .ok (body, opened) => .ok (.group groups body.reverse :: made, opened)
      | .error e => .error e
    | none => .ok (.group groups [] :: made, groups + 1)
  | .alternatives =>
    match addBranches config groups [] (collectNamed "TERM" #[] t.children).toList with
    | .ok (branches, groups) => .ok (.alternation branches.reverse :: made, groups)
    | .error e => .error e
  | c =>
    match Step.addPlain config made t c with
    | .ok made => .ok (made, groups)
    | .error e => .error e
termination_by (sizeOf [t], 0)
decreasing_by
  · have := sizeOf_firstNamed_lt h
    have := sizeOf_children_lt t
    apply Prod.Lex.left
    simp only [List.cons.sizeOf_spec, List.nil.sizeOf_spec]
    cases t <;> simp_all [children] <;> omega
  · exact Prod.Lex.left _ _
      (Nat.lt_of_le_of_lt (sizeOf_outermost_le "TERM" t.children) (sizeOf_children_lt t))

/-- The branches of an alternation after those made before, the last first. -/
def addBranches (config : Config) (groups : Nat) (made : List (List Step)) :
    List ParseTree → Except CompileError (List (List Step) × Nat)
  | [] => .ok (made, groups)
  | term :: terms =>
    match addForest config groups [] [term] with
    | .ok (branch, groups) => addBranches config groups (branch.reverse :: made) terms
    | .error e => .error e
termination_by terms => (sizeOf terms, 2)
decreasing_by
  · by_cases h : sizeOf [term] < sizeOf (term :: terms)
    · exact Prod.Lex.left _ _ h
    · have : sizeOf [term] = sizeOf (term :: terms) := by
        cases terms with
        | nil => rfl
        | cons _ _ =>
          simp only [List.cons.sizeOf_spec, List.nil.sizeOf_spec] at h ⊢
          omega
      rw [this]
      exact Prod.Lex.right _ (by omega)
  · exact Prod.Lex.left _ _ (sizeOf_tail_lt term terms)

end

end ParseTree

/-- Programs nested deeper than this are refused. -/
def nestingLimit : Nat := 256

/-- The program of a parse tree. -/
def Program.ofTree (config : Config) (tree : ParseTree) : Except CompileError Program :=
  match ParseTree.addForest config 0 [] [tree] with
  | .ok (made, groupCount) =>
    let program : Program := { steps := made.reverse, groupCount }
    if nestingLimit < program.depth then .error (.tooDeep nestingLimit) else .ok program
  | .error e => .error e

/-- Patterns of more bytes than this are refused. -/
def patternLimit : Nat := 64 * 1024

/-- The parse tree of a pattern. -/
def patternTree (pattern : String) : Except CompileError ParseTree :=
  if patternLimit < pattern.utf8ByteSize then .error (.tooLong pattern.utf8ByteSize patternLimit)
  else
    match parse patternGrammar pattern with
    | .ok tree => .ok tree
    | .error e => .error (.parse e)

/-- The program of a pattern. -/
def Program.ofPattern (config : Config) (pattern : String) : Except CompileError Program :=
  match patternTree pattern with
  | .ok tree => Program.ofTree config tree
  | .error e => .error e

end PatternText
