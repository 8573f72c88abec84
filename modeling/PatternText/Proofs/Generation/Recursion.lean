import PatternText.Generation.Generator
import PatternText.Proofs.Program.Levels

/-! Nested evaluations. The evaluation of a step calls for that of the steps inside it, and the evaluation
of an expression for that of its operands; each call stays open until those inside it have ended. Here
both get room for a number of calls inside one another, and an evaluation that needs more does not return.
Steps need one more call than their depth, at most, and an expression as many as its own depth, whatever
is decided at random; so the limits on the depths bound both for every compiled program. -/

namespace PatternText

/-! ### Expressions -/

namespace Expr

/-- The value of an expression, with room for so many evaluations inside one another, this one among
them. -/
def evalWithin (scope : Scope) : Nat → Expr → Option (Option Float)
  | 0, _ => none
  | _ + 1, number x => some (some x)
  | _ + 1, counter => some (some (scope.counters.headD scope.rangeIndex).toFloat)
  | room + 1, outerCounter e => (e.evalWithin scope room).map fun value => do
    let level ← indexValue? (← value)
    (scope.counters[level.toNat]?).map UInt64.toFloat
  | _ + 1, sourceCount => some (some (UInt64.ofNat scope.sourceValues.size).toFloat)
  | room + 1, sourceValue e => (e.evalWithin scope room).map fun value => do
    let place ← indexValue? (← value)
    scope.sourceValues[place.toNat]?
  | room + 1, negate e => (e.evalWithin scope room).map fun value => value.map fun x => -x
  | room + 1, binary op l r => do
    match ← l.evalWithin scope room with
    | none => some none
    | some x => (r.evalWithin scope room).map fun value => value.map (op.apply x)

theorem evalWithin_eq {scope : Scope} {room : Nat} {e : Expr} (h : e.depth ≤ room) :
    e.evalWithin scope room = some (e.eval? scope) := by
  induction room generalizing e with
  | zero => cases e <;> simp [depth] at h
  | succ room ih =>
    cases e with
    | number x => rfl
    | counter => rfl
    | sourceCount => rfl
    | outerCounter e =>
      rw [evalWithin, ih (Nat.le_of_succ_le_succ h)]
      rfl
    | sourceValue e =>
      rw [evalWithin, ih (Nat.le_of_succ_le_succ h)]
      rfl
    | negate e =>
      rw [evalWithin, ih (Nat.le_of_succ_le_succ h)]
      rfl
    | binary op l r =>
      have hboth := max_le_iff.1 (Nat.le_of_succ_le_succ h)
      rw [evalWithin, ih hboth.1, ih hboth.2, eval?]
      cases l.eval? scope <;> cases r.eval? scope <;> rfl

end Expr

namespace Expression

/-- The value of a written expression, with room for as many evaluations inside one another as `allow`
gives to what it spells. -/
def valueWithin (allow : Expr → Nat) (scope : Scope) (e : Expression) : Option (Except Fault Float) :=
  match e.parsed with
  | .ok tree => (tree.evalWithin scope (allow tree)).map fun value =>
    match value.filter Float.isFinite with
    | some x => .ok x
    | none => .error (.nonNumeric e.text)
  | .error cause => some (.error (.badExpression e.text cause))

/-- The expression nests no deeper than it is allowed to. -/
def FitsIn (allow : Expr → Nat) (e : Expression) : Prop :=
  ∀ tree, e.parsed = .ok tree → tree.depth ≤ allow tree

theorem valueWithin_eq {allow : Expr → Nat} {scope : Scope} {e : Expression} (h : e.FitsIn allow) :
    e.valueWithin allow scope = some (e.value scope) := by
  rw [valueWithin, value, eval]
  cases hparsed : e.parsed with
  | error cause => rfl
  | ok tree =>
    simp only [Expr.evalWithin_eq (h tree hparsed), Option.map_some, Expr.evalFinite?]
    cases (tree.eval? scope).filter Float.isFinite <;> rfl

end Expression

/-! ### Bounds and source references -/

namespace Setting

variable (s : Setting) (allow : Expr → Nat) (counters : List UInt64)

def countWithin (e : Expression) (construct : String) : Option (Except Fault UInt64) :=
  (e.valueWithin allow (s.scope counters)).map fun value =>
    match value with
    | .error fault => .error fault
    | .ok x =>
      match Exact.ofFloat? x with
      | some n => if n.isBelowZero then .error (.invalidCount construct x) else .ok n.toWord
      | none => .error (.nonNumeric e.text)

/-- The counts that bounds allow. Only bounds with expressions need room. -/
def countRangeWithin (construct : String) : Bounds → Option (Except Fault CountRange)
  | .zeroOrMore => some (s.countRange counters construct .zeroOrMore)
  | .zeroOrOne => some (s.countRange counters construct .zeroOrOne)
  | .oneOrMore => some (s.countRange counters construct .oneOrMore)
  | .exactly n => do
    match ← s.countWithin allow counters n construct with
    | .error fault => some (.error fault)
    | .ok n => some (.ok ⟨n, n, UInt64.le_refl n⟩)
  | .atLeast n => do
    match ← s.countWithin allow counters n construct with
    | .error fault => some (.error fault)
    | .ok n =>
      if h : n ≤ s.upperBound then some (.ok ⟨n, s.upperBound, h⟩)
      else some (.error (.number (.minimumAboveUpperBound n s.upperBound construct)))
  | .between n m => do
    match ← s.countWithin allow counters n construct with
    | .error fault => some (.error fault)
    | .ok n =>
      match ← s.countWithin allow counters m construct with
      | .error fault => some (.error fault)
      | .ok m =>
        if h : n ≤ m then some (.ok ⟨n, m, h⟩) else some (.error (.number (.boundsOutOfOrder construct)))

def sourceTextWithin {σ : Type} (place : Expression) (modifier : Option FirstModifier)
    (construct : String) (p : Progress σ) : Option (Evaluation σ) :=
  (place.valueWithin allow (s.scope counters)).map fun value =>
    match value with
    | .error fault => (.error fault, p)
    | .ok x =>
      let at? := indexValue? x
      let p := if modifier.isSome then s.rememberFirst p else p
      let first := (groupAt? (p.firstGroups.getD #[]) at?).filter fun text => !text.isEmpty
      match groupAt? s.sourceGroups at? with
      | none => (.error (.unknownSourceGroup construct (plainText x)), p)
      | some current =>
        match modifier, first with
        | some .first, some first => (.ok first, p)
        | some .minusFirst, some first => (.ok (stripFront first current), p)
        | _, _ => (.ok current, p)

variable {s allow counters}

theorem countWithin_eq {e : Expression} (h : e.FitsIn allow) (construct : String) :
    s.countWithin allow counters e construct = some (s.count counters e construct) := by
  rw [countWithin, Expression.valueWithin_eq h]
  rfl

theorem countRangeWithin_eq {bounds : Bounds} (h : ∀ e ∈ bounds.expressions, e.FitsIn allow)
    (construct : String) : s.countRangeWithin allow counters construct bounds =
      some (s.countRange counters construct bounds) := by
  cases bounds with
  | zeroOrMore => rfl
  | zeroOrOne => rfl
  | oneOrMore => rfl
  | exactly n =>
    rw [countRangeWithin, countWithin_eq (List.forall_mem_singleton.1 h), countRange]
    cases s.count counters n construct <;> rfl
  | atLeast n =>
    rw [countRangeWithin, countWithin_eq (List.forall_mem_singleton.1 h), countRange]
    cases s.count counters n construct with
    | error fault => rfl
    | ok n =>
      simp only [bind, Option.bind]
      split <;> rfl
  | between n m =>
    obtain ⟨hn, hm⟩ := List.forall_mem_cons.1 h
    rw [countRangeWithin, countWithin_eq hn, countWithin_eq (List.forall_mem_singleton.1 hm), countRange]
    cases s.count counters n construct with
    | error fault => rfl
    | ok n =>
      cases s.count counters m construct with
      | error fault => rfl
      | ok m =>
        simp only [bind, Option.bind]
        split <;> rfl

theorem sourceTextWithin_eq {σ : Type} {place : Expression} (h : place.FitsIn allow)
    (modifier : Option FirstModifier) (construct : String) (p : Progress σ) :
    s.sourceTextWithin allow counters place modifier construct p =
      some (s.sourceText counters place modifier construct p) := by
  rw [sourceTextWithin, Expression.valueWithin_eq h]
  rfl

end Setting

/-! ### Steps -/

variable {σ : Type}

/-- The texts of steps one after the other, by a call that may not return. -/
def stepsWithin (call : Step → Progress σ → Option (Evaluation σ)) (acc : String) :
    List Step → Progress σ → Option (Evaluation σ)
  | [], p => some (.ok acc, p)
  | step :: steps, p => do
    match ← call step p with
    | (.ok text, p) => stepsWithin call (acc ++ text) steps p
    | (.error fault, p) => some (.error fault, p)

/-- The joined texts of a loop body, by a call that may not return. -/
def loopWithin (call : UInt64 → Progress σ → Option (Evaluation σ)) (acc : String) (i : UInt64) :
    Nat → Progress σ → Option (Evaluation σ)
  | 0, p => some (.ok acc, p)
  | count + 1, p => do
    match ← call i p with
    | (.ok text, p) => loopWithin call (acc ++ text) (i + 1) count p
    | (.error fault, p) => some (.error fault, p)

/-- The text of a step, with room for so many evaluations of steps inside one another, this one among
them. -/
def stepWithin [Chooser σ] (s : Setting) (allow : Expr → Nat) :
    Nat → List UInt64 → Step → Progress σ → Option (Evaluation σ)
  | 0, _, _, _ => none
  | _ + 1, _, .literal text, p => some (.ok text, p)
  | _ + 1, _, .oneOf chars, p =>
    let (text, chooser) := chars.drawText p.chooser
    some (.ok text, { p with chooser })
  | room + 1, counters, .group id body, p => do
    match ← stepsWithin (stepWithin s allow room counters) "" body (p.enter id) with
    | (.ok text, p) => some (.ok text, p.complete id text)
    | (.error fault, p) => some (.error fault, p)
  | _ + 1, _, .backref place, p =>
    match p.captured? place with
    | some text => some (.ok text, p)
    | none => some (.error (.unknownGroup place), p)
  | room + 1, counters, .repetition step bounds construct, p => do
    match ← s.countRangeWithin allow counters construct bounds with
    | .error fault => some (.error fault, p)
    | .ok r =>
      let (count, chooser) := Chooser.count r.lo r.hi r.le p.chooser
      loopWithin (fun i p => stepWithin s allow room (i :: counters) step p) "" 0 count.val.toNat
        { p with chooser }
  | _ + 1, counters, .source place modifier construct, p =>
    s.sourceTextWithin allow counters place modifier construct p
  | _ + 1, counters, .numeric value format, p => do
    match ← value.valueWithin allow (s.scope counters) with
    | .ok x => some (.ok (format.apply x), p)
    | .error fault => some (.error fault, p)
  | room + 1, counters, .alternation branches, p =>
    if h : 0 < branches.length then
      let (i, chooser) := Chooser.index branches.length h p.chooser
      stepsWithin (stepWithin s allow room counters) "" branches[i] { p with chooser }
    else some (.ok "", p)

/-- The text of the current range, with room for so many evaluations of steps inside one another and of
expressions as `allow` says. -/
def Generator.generateWithin [Chooser σ] (g : Generator σ) (allow : Expr → Nat) (room : Nat) :
    Option (Except GenerationError String × Generator σ) :=
  let start : Progress σ := { chooser := g.chooser, captures := #[], firstGroups := g.firstGroups }
  (stepsWithin (stepWithin g.setting allow room []) "" g.program.steps start).map fun (result, p) =>
    (result.mapError (⟨g.rangeIndex, ·⟩), { g with chooser := p.chooser, firstGroups := p.firstGroups })

section

variable [Chooser σ] {s : Setting} {allow : Expr → Nat} {room : Nat} {counters : List UInt64}

theorem stepsWithin_eq {call : Step → Progress σ → Option (Evaluation σ)} {steps : List Step}
    (h : ∀ step ∈ steps, ∀ p, call step p = some (evalStep s counters step p)) (acc : String)
    (p : Progress σ) : stepsWithin call acc steps p = some (evalSteps s counters acc steps p) := by
  induction steps generalizing acc p with
  | nil => rfl
  | cons step steps ih =>
    obtain ⟨hstep, hsteps⟩ := List.forall_mem_cons.1 h
    rw [stepsWithin, hstep, evalSteps]
    rcases evalStep s counters step p with ⟨_ | text, p⟩
    · rfl
    · exact ih hsteps _ p

omit [Chooser σ] in
theorem loopWithin_eq {call : UInt64 → Progress σ → Option (Evaluation σ)}
    {body : UInt64 → Progress σ → Evaluation σ} (h : ∀ i p, call i p = some (body i p)) (acc : String)
    (i : UInt64) (count : Nat) (p : Progress σ) :
    loopWithin call acc i count p = some (joinLoop body acc i count p) := by
  induction count generalizing acc i p with
  | zero => rfl
  | succ count ih =>
    rw [loopWithin, h, joinLoop]
    rcases body i p with ⟨_ | text, p⟩
    · rfl
    · exact ih _ _ p

/-- Room beyond its depth is enough for a step, and it is evaluated there as without limit. -/
theorem stepWithin_eq {step : Step} (hdepth : step.depth < room)
    (hfits : step.AllExpressions (Expression.FitsIn allow)) (p : Progress σ) :
    stepWithin s allow room counters step p = some (evalStep s counters step p) := by
  induction room generalizing counters step p with
  | zero => exact absurd hdepth (Nat.not_lt_zero _)
  | succ room ih =>
    have hinside {inner : Step} (hlevel : step.isSimple = false) (hmem : inner ∈ step.inside) :
        inner.depth < room := by
      have := depth_le_stepsDepth hmem
      have := Step.depth_eq_inside hlevel
      omega
    have hereditary := Step.hereditary_allExpressions (Expression.FitsIn allow)
    cases step with
    | literal text => rfl
    | oneOf chars => rfl
    | backref place =>
      rw [stepWithin, evalStep]
      cases p.captured? place <;> rfl
    | source place modifier construct =>
      exact Setting.sourceTextWithin_eq (hfits place (List.mem_singleton_self _)) modifier construct p
    | numeric value format =>
      rw [stepWithin, Expression.valueWithin_eq (hfits value (List.mem_singleton_self _)), evalStep]
      cases value.value (s.scope counters) <;> rfl
    | group id body =>
      have hbody := hereditary.group.1 hfits
      have hsteps (inner : Step) (hmem : inner ∈ body) (p : Progress σ) :
          stepWithin s allow room counters inner p = some (evalStep s counters inner p) :=
        ih (hinside rfl hmem) (hbody inner hmem) p
      rw [stepWithin, stepsWithin_eq hsteps, evalStep]
      rcases evalSteps s counters "" body (p.enter id) with ⟨_ | text, p⟩ <;> rfl
    | repetition step bounds construct =>
      have hbounds (e : Expression) (he : e ∈ bounds.expressions) : e.FitsIn allow :=
        hfits e (List.mem_append_left _ he)
      have hrounds (i : UInt64) (p : Progress σ) : stepWithin s allow room (i :: counters) step p =
          some (evalStep s (i :: counters) step p) :=
        ih (hinside rfl (List.mem_singleton_self _)) (hereditary.operand hfits) p
      rw [stepWithin, Setting.countRangeWithin_eq hbounds, evalStep]
      cases s.countRange counters construct bounds with
      | error fault => rfl
      | ok r => exact loopWithin_eq hrounds _ _ _ _
    | alternation branches =>
      have hbranches := hereditary.alternation.1 hfits
      rw [stepWithin, evalStep]
      split
      next hpos =>
        have hi := (Chooser.index branches.length hpos p.chooser).1.isLt
        have hbranch := List.getElem_mem hi
        dsimp only
        rw [evalBranch_eq_evalSteps s counters hi]
        refine stepsWithin_eq (fun inner hmem => ih (hinside rfl ?_) (hbranches _ hbranch inner hmem)) _ _
        exact List.mem_flatten.2 ⟨_, hbranch, hmem⟩
      next => rfl

/-- Room beyond the depth of the program is enough for every generation, whatever is decided. -/
theorem Generator.generateWithin_eq (g : Generator σ) (hdepth : g.program.depth < room)
    (hfits : ∀ e ∈ g.program.expressions, e.FitsIn allow) :
    g.generateWithin allow room = some g.generate := by
  have hsteps (step : Step) (hmem : step ∈ g.program.steps) (p : Progress σ) :
      stepWithin g.setting allow room [] step p = some (evalStep g.setting [] step p) :=
    stepWithin_eq ((depth_le_stepsDepth hmem).trans_lt hdepth)
      (fun e he => hfits e (mem_stepsExpressions.2 ⟨step, hmem, he⟩)) p
  rw [generateWithin, generate]
  dsimp only
  rw [stepsWithin_eq hsteps, Option.map_some]

end

/-- The limits on nesting bound every recursion of generation. Every generation of a compiled program
returns what it returns without limit when at most one evaluation of a step more than the depth of the
program is open at a time, and so at most 257, and as many of an expression as its own depth, and so at
most 256. The depth of a program is the length of its longest chain of levels; a pattern is refused for
its depth only if the steps made from it have a chain of more than 256. -/
theorem recursion_bounded (config : Config) (pattern : String) :
    (∀ program, Program.ofPattern config pattern = .ok program →
      program.depth ≤ 256 ∧
      (∀ e ∈ program.expressions, ∀ tree, e.parsed = .ok tree → tree.depth ≤ 256) ∧
      ∀ {σ : Type} [Chooser σ] (g : Generator σ), g.program = program →
        g.generateWithin Expr.depth (program.depth + 1) = some g.generate ∧
          g.generateWithin (fun _ => 256) 257 = some g.generate) ∧
    (∀ program : Program,
      (∃ chain, Chain program.steps chain ∧ chain.length = program.depth) ∧
        ∀ chain, Chain program.steps chain → chain.length ≤ program.depth) ∧
    ∀ limit, Program.ofPattern config pattern = .error (.tooDeep limit) →
      limit = 256 ∧ ∃ tree made groups, patternTree pattern = .ok tree ∧
        ParseTree.addForest config 0 [] [tree] = .ok (made, groups) ∧
        ∃ chain, Chain made.reverse chain ∧ 256 < chain.length := by
  refine ⟨fun program hprogram => ?_, fun program => ?_, fun limit h => ?_⟩
  · have hdepth : program.depth ≤ 256 := Program.depth_le_of_ofPattern hprogram
    have hexpressions (e : Expression) (he : e ∈ program.expressions) (tree : Expr)
        (htree : e.parsed = .ok tree) : tree.depth ≤ 256 :=
      Program.depth_le_of_mem_expressions hprogram he htree
    refine ⟨hdepth, hexpressions, fun g hg => ?_⟩
    subst hg
    exact ⟨g.generateWithin_eq (Nat.lt_succ_self _) fun _ _ _ _ => le_rfl,
      g.generateWithin_eq (Nat.lt_succ_of_le hdepth) hexpressions⟩
  · exact ⟨exists_chain program.steps, fun _ hchain => hchain.length_le⟩
  · exact Program.exists_chain_of_tooDeep h

/-- A loop with expressions for its bounds needs two evaluations of steps inside one another. -/
theorem countedLetter_within :
    let g := Generator.ofProgram (.ofSettings {}) countedLetter 1
    Program.ofPattern (.ofSettings {}) "a{i,N}" = .ok countedLetter ∧
      g.generateWithin Expr.depth 2 = some g.generate :=
  have hprogram := countedLetter_compiled (.ofSettings {})
  ⟨hprogram, (((recursion_bounded (.ofSettings {}) "a{i,N}").1 countedLetter hprogram).2.2 _ rfl).1⟩

/-- One level less of room is too little: a group inside a group does not come to its letter. -/
example : (Generator.ofProgram (.ofSettings {})
    ⟨[.group 0 [.group 1 [.literal "b"]]], 2⟩ 1).generateWithin Expr.depth 2 = none := rfl

end PatternText
