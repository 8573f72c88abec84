import PatternText.Proofs.Generation.CountFaults
import PatternText.Proofs.Program.Outcome

/-! Levels. Groups, repetitions and alternations are levels of a program; a chain of levels has each one
directly inside the one before. The depth of a program is the length of its longest chains, so a program
is refused for its depth only where a chain is too long. Expressions stand at all levels, and those of a
compiled program were read from a text, which is refused if they nest too deeply themselves. -/

namespace PatternText

/-! ### Chains -/

/-- The steps directly inside a step. -/
def Step.inside : Step → List Step
  | .group _ body => body
  | .repetition step _ _ => [step]
  | .alternation branches => branches.flatten
  | .literal _ | .oneOf _ | .backref _ | .source _ _ _ | .numeric _ _ => []

/-- A chain of levels in steps. -/
inductive Chain : List Step → List Step → Prop where
  | done {steps : List Step} : Chain steps []
  | level {steps chain : List Step} {step : Step} (hmem : step ∈ steps)
      (hlevel : step.isSimple = false) (h : Chain step.inside chain) : Chain steps (step :: chain)

theorem stepsDepth_cons (step : Step) (steps : List Step) :
    stepsDepth 0 (step :: steps) = max step.depth (stepsDepth 0 steps) := by
  rw [stepsDepth, Nat.zero_max, stepsDepth_eq_max]

theorem branchesDepth_cons (branch : List Step) (branches : List (List Step)) :
    branchesDepth 0 (branch :: branches) = max (stepsDepth 0 branch) (branchesDepth 0 branches) := by
  rw [branchesDepth, Nat.zero_max, branchesDepth_eq_max]

theorem branchesDepth_eq_stepsDepth (branches : List (List Step)) :
    branchesDepth 0 branches = stepsDepth 0 branches.flatten := by
  induction branches with
  | nil => rfl
  | cons branch branches ih =>
    rw [branchesDepth_cons, ih, List.flatten_cons, stepsDepth_append]

theorem Step.depth_of_isSimple {step : Step} (h : step.isSimple = true) : step.depth = 0 := by
  cases step with
  | literal _ | oneOf _ | backref _ | source _ _ _ | numeric _ _ => rfl
  | group _ _ | repetition _ _ _ | alternation _ => cases h

/-- A level adds one to the depth of what is inside. -/
theorem Step.depth_eq_inside {step : Step} (h : step.isSimple = false) :
    step.depth = stepsDepth 0 step.inside + 1 := by
  cases step with
  | group id body => rw [depth, inside]
  | repetition step bounds construct => rw [depth, inside, stepsDepth_cons, stepsDepth, Nat.max_zero]
  | alternation branches => rw [depth, inside, branchesDepth_eq_stepsDepth]
  | literal _ | oneOf _ | backref _ | source _ _ _ | numeric _ _ => cases h

theorem depth_le_stepsDepth {steps : List Step} {step : Step} (h : step ∈ steps) :
    step.depth ≤ stepsDepth 0 steps := by
  induction steps with
  | nil => cases h
  | cons first steps ih =>
    rw [stepsDepth_cons, le_max_iff]
    rcases List.mem_cons.1 h with rfl | h
    · exact .inl le_rfl
    · exact .inr (ih h)

/-- The depth of steps is that of one of them. -/
theorem exists_depth_eq_stepsDepth {steps : List Step} (h : stepsDepth 0 steps ≠ 0) :
    ∃ step ∈ steps, step.depth = stepsDepth 0 steps := by
  induction steps with
  | nil => exact absurd rfl h
  | cons first steps ih =>
    rw [stepsDepth_cons] at h ⊢
    rcases le_total (stepsDepth 0 steps) first.depth with hle | hle
    · exact ⟨first, List.mem_cons_self, (max_eq_left hle).symm⟩
    · rw [max_eq_right hle] at h ⊢
      obtain ⟨step, hmem, hdepth⟩ := ih h
      exact ⟨step, List.mem_cons_of_mem first hmem, hdepth⟩

theorem Chain.length_le {steps chain : List Step} (h : Chain steps chain) :
    chain.length ≤ stepsDepth 0 steps := by
  induction h with
  | done => exact Nat.zero_le _
  | @level steps chain step hmem hlevel _ ih =>
    calc chain.length + 1 ≤ stepsDepth 0 step.inside + 1 := Nat.succ_le_succ ih
      _ = step.depth := (Step.depth_eq_inside hlevel).symm
      _ ≤ stepsDepth 0 steps := depth_le_stepsDepth hmem

/-- Depth is attained: below a step of the greatest depth the depth is one less. -/
theorem exists_chain (steps : List Step) :
    ∃ chain, Chain steps chain ∧ chain.length = stepsDepth 0 steps := by
  induction hdepth : stepsDepth 0 steps generalizing steps with
  | zero => exact ⟨[], .done, rfl⟩
  | succ depth ih =>
    have hpositive : stepsDepth 0 steps ≠ 0 := by omega
    obtain ⟨step, hmem, hstep⟩ := exists_depth_eq_stepsDepth hpositive
    have hlevel : step.isSimple = false := by
      rw [← Bool.not_eq_true]
      intro hsimple
      rw [Step.depth_of_isSimple hsimple] at hstep
      omega
    have hinside : stepsDepth 0 step.inside = depth := by
      have := Step.depth_eq_inside hlevel
      omega
    obtain ⟨chain, hchain, hlength⟩ := ih step.inside hinside
    exact ⟨step :: chain, .level hmem hlevel hchain, congrArg (· + 1) hlength⟩

/-! ### Refusals -/

/-- A construct without steps of its own fails with this error somewhere. -/
def PlainFails (config : Config) (e : CompileError) : Prop :=
  ∃ made t c, Step.addPlain config made t c = .error e

namespace ParseTree

variable {config : Config}

/-- Compilation fails only where a construct without steps of its own does. -/
theorem plainFails_of_error :
    (∀ groups made ts, ∀ e, addForest config groups made ts = .error e → PlainFails config e) ∧
      (∀ groups made t c, ∀ e, addConstruct config groups made t c = .error e → PlainFails config e) ∧
      ∀ groups made ts, ∀ e, addBranches config groups made ts = .error e → PlainFails config e := by
  apply addForest.mutual_induct config
    (fun groups made ts => ∀ e, addForest config groups made ts = .error e → PlainFails config e)
    (fun groups made t c => ∀ e, addConstruct config groups made t c = .error e → PlainFails config e)
    (fun groups made ts => ∀ e, addBranches config groups made ts = .error e → PlainFails config e)
  case case1 =>
    intro groups made e h
    rw [addForest] at h
    cases h
  case case2 =>
    intro groups made t ts hnone ih e h
    exact ih e (addForest_none hnone ▸ h)
  case case3 =>
    intro groups made t ts c hsome made' groups' hconstruct _ ih e h
    rw [addForest_construct hsome, hconstruct] at h
    exact ih e h
  case case4 =>
    intro groups made t ts c hsome cause hconstruct ih e h
    rw [addForest_construct hsome, hconstruct] at h
    cases h
    exact ih cause hconstruct
  case case5 =>
    intro groups made t inner hinner body opened hbody _ e h
    rw [addConstruct_group hinner, hbody] at h
    cases h
  case case6 =>
    intro groups made t inner hinner cause hbody ih e h
    rw [addConstruct_group hinner, hbody] at h
    cases h
    exact ih cause hbody
  case case7 =>
    intro groups made t hnone e h
    rw [addConstruct_group_none hnone] at h
    cases h
  case case8 =>
    intro groups made t branches opened hbranches _ e h
    rw [addConstruct, hbranches] at h
    cases h
  case case9 =>
    intro groups made t cause hbranches ih e h
    rw [addConstruct, hbranches] at h
    cases h
    exact ih cause hbranches
  case case10 =>
    intro groups made t c hgroup halternatives made' hmakes e h
    rw [addConstruct_plain hgroup halternatives, hmakes] at h
    cases h
  case case11 =>
    intro groups made t c hgroup halternatives cause hfails e h
    rw [addConstruct_plain hgroup halternatives, hfails] at h
    cases h
    exact ⟨made, t, c, hfails⟩
  case case12 =>
    intro groups made e h
    rw [addBranches] at h
    cases h
  case case13 =>
    intro groups made t ts branch groups' hforest _ ih e h
    rw [addBranches, hforest] at h
    exact ih e h
  case case14 =>
    intro groups made t ts cause hforest ih e h
    rw [addBranches, hforest] at h
    cases h
    exact ih cause hforest

end ParseTree

theorem repeatLast_ne_tooDeep (made : List Step) (bounds : Bounds) (construct : String) (limit : Nat) :
    Step.repeatLast made bounds construct ≠ .error (.tooDeep limit) := by
  cases made <;> simp [Step.repeatLast]

theorem repeatCounted_ne_tooDeep (config : Config) (made : List Step) (bounds : Bounds)
    (construct : String) (limit : Nat) :
    Step.repeatCounted config made bounds construct ≠ .error (.tooDeep limit) := by
  rw [Step.repeatCounted]
  split
  · exact repeatLast_ne_tooDeep made bounds construct limit
  · simp

theorem numberFormat_ne_tooDeep (t : ParseTree) (limit : Nat) :
    t.numberFormat ≠ .error (.tooDeep limit) := by
  intro h
  obtain ⟨modifier, -, format, hfails⟩ := exists_of_foldlM_error h
  dsimp only at hfails
  split at hfails
  · split at hfails <;> cases hfails
  · split at hfails <;> cases hfails

/-- What is said of a single construct never says that the program is too deep. -/
theorem PlainFails.ne_tooDeep {config : Config} {e : CompileError} (h : PlainFails config e)
    (limit : Nat) : e ≠ .tooDeep limit := by
  rintro rfl
  obtain ⟨made, t, c, h⟩ := h
  cases c with
  | literal | escaped | anyOf _ | inclusiveList | exclusiveList | source | group | alternatives => cases h
  | backref =>
    rw [Step.addPlain] at h
    split at h <;> cases h
  | numeric =>
    rw [Step.addPlain_numeric] at h
    cases hformat : t.numberFormat with
    | error cause =>
      rw [hformat] at h
      cases h
      exact numberFormat_ne_tooDeep t limit hformat
    | ok format =>
      rw [hformat] at h
      cases h
  | zeroOrMore | zeroOrOne | oneOrMore => exact repeatLast_ne_tooDeep _ _ _ _ h
  | exactly | atLeast | between =>
    rw [Step.addPlain] at h
    exact repeatCounted_ne_tooDeep _ _ _ _ _ h

namespace Program

variable {config : Config}

/-- A program is refused for its depth only where a chain of levels is longer than the limit. -/
theorem exists_chain_of_tooDeep {pattern : String} {limit : Nat}
    (h : ofPattern config pattern = .error (.tooDeep limit)) :
    limit = nestingLimit ∧ ∃ tree made groups, patternTree pattern = .ok tree ∧
      ParseTree.addForest config 0 [] [tree] = .ok (made, groups) ∧
      ∃ chain, Chain made.reverse chain ∧ nestingLimit < chain.length := by
  rw [ofPattern] at h
  cases htree : patternTree pattern with
  | error e =>
    rw [htree] at h
    cases h
    rw [patternTree] at htree
    split at htree
    · cases htree
    · split at htree <;> cases htree
  | ok tree =>
    rw [htree] at h
    dsimp only at h
    rw [ofTree] at h
    cases hforest : ParseTree.addForest config 0 [] [tree] with
    | error e =>
      rw [hforest] at h
      cases h
      exact absurd rfl ((ParseTree.plainFails_of_error.1 _ _ _ _ hforest).ne_tooDeep limit)
    | ok out =>
      obtain ⟨made, groups⟩ := out
      rw [hforest] at h
      dsimp only at h
      split at h
      next hdeep =>
        cases h
        obtain ⟨chain, hchain, hlength⟩ := exists_chain made.reverse
        exact ⟨rfl, tree, made, groups, rfl, hforest, chain, hchain, hlength ▸ hdeep⟩
      next => cases h

theorem depth_le_of_ofPattern {pattern : String} {program : Program}
    (h : ofPattern config pattern = .ok program) : program.depth ≤ nestingLimit := by
  rw [ofPattern] at h
  split at h
  next tree _ =>
    rw [ofTree] at h
    split at h
    next made groups _ =>
      dsimp only at h
      split at h
      next => cases h
      next hdepth =>
        cases h
        exact Nat.not_lt.1 hdepth
    next => cases h
  next => cases h

end Program

/-! ### Expressions -/

mutual

/-- The expressions anywhere in a step. -/
def Step.expressions : Step → List Expression
  | .group _ body => stepsExpressions body
  | .repetition step bounds _ => bounds.expressions ++ step.expressions
  | .alternation branches => branchesExpressions branches
  | .source place _ _ => [place]
  | .numeric value _ => [value]
  | .literal _ | .oneOf _ | .backref _ => []

def stepsExpressions : List Step → List Expression
  | [] => []
  | step :: steps => step.expressions ++ stepsExpressions steps

def branchesExpressions : List (List Step) → List Expression
  | [] => []
  | branch :: branches => stepsExpressions branch ++ branchesExpressions branches

end

/-- The expressions anywhere in a program. -/
def Program.expressions (p : Program) : List Expression := stepsExpressions p.steps

theorem mem_stepsExpressions {e : Expression} {steps : List Step} :
    e ∈ stepsExpressions steps ↔ ∃ step ∈ steps, e ∈ step.expressions := by
  induction steps with
  | nil => simp [stepsExpressions]
  | cons step steps ih => simp [stepsExpressions, ih]

theorem mem_branchesExpressions {e : Expression} {branches : List (List Step)} :
    e ∈ branchesExpressions branches ↔
      ∃ branch ∈ branches, ∃ step ∈ branch, e ∈ step.expressions := by
  induction branches with
  | nil => simp [branchesExpressions]
  | cons branch branches ih => simp [branchesExpressions, mem_stepsExpressions, ih]

/-- All expressions in a step have the property. -/
def Step.AllExpressions (P : Expression → Prop) (step : Step) : Prop := ∀ e ∈ step.expressions, P e

theorem Step.hereditary_allExpressions (P : Expression → Prop) : Step.Hereditary (AllExpressions P) where
  group := by
    simp only [AllExpressions, expressions, mem_stepsExpressions]
    exact ⟨fun h step hstep e he => h e ⟨step, hstep, he⟩,
      fun h e ⟨step, hstep, he⟩ => h step hstep e he⟩
  alternation := by
    simp only [AllExpressions, expressions, mem_branchesExpressions]
    exact ⟨fun h branch hbranch step hstep e he => h e ⟨branch, hbranch, step, hstep, he⟩,
      fun h e ⟨branch, hbranch, step, hstep, he⟩ => h branch hbranch step hstep e he⟩
  operand h e he := h e (List.mem_append_right _ he)

section Read

variable {config : Config} {P : Expression → Prop} (hread : ∀ text, P (.ofText text))
include hread

/-- The expressions of a construct are read from its texts, also where one is missing. -/
theorem headD_of_forall (es : List Expression) (hes : ∀ e ∈ es, P e) : P (es.headD default) := by
  cases es with
  | nil => exact hread ""
  | cons e es => exact hes e List.mem_cons_self

theorem forall_expressions (t : ParseTree) : ∀ e ∈ t.expressions, P e := by
  intro e he
  obtain ⟨u, -, rfl⟩ := List.mem_map.1 he
  exact hread u.text

omit hread in
theorem allExpressions_repeatLast {made out : List Step} {bounds : Bounds} {construct : String}
    (h : Step.repeatLast made bounds construct = .ok out) (hbounds : ∀ e ∈ bounds.expressions, P e)
    (hmade : ∀ step ∈ made, step.AllExpressions P) : ∀ step ∈ out, step.AllExpressions P := by
  cases made with
  | nil => cases h
  | cons operand made =>
    cases h
    obtain ⟨hoperand, hmade⟩ := List.forall_mem_cons.1 hmade
    exact List.forall_mem_cons.2 ⟨List.forall_mem_append.2 ⟨hbounds, hoperand⟩, hmade⟩

omit hread in
theorem allExpressions_repeatCounted {made out : List Step} {bounds : Bounds} {construct : String}
    (h : Step.repeatCounted config made bounds construct = .ok out)
    (hbounds : ∀ e ∈ bounds.expressions, P e) (hmade : ∀ step ∈ made, step.AllExpressions P) :
    ∀ step ∈ out, step.AllExpressions P := by
  rw [Step.repeatCounted] at h
  split at h
  · exact allExpressions_repeatLast h hbounds hmade
  · cases h

theorem keptByPlain_allExpressions : Step.KeptByPlain config (Step.AllExpressions P) := by
  intro made out t c h hmade
  have hes := forall_expressions hread t
  have hfirst := headD_of_forall hread t.expressions hes
  have hsecond := headD_of_forall hread t.expressions.tail fun e he => hes e (List.mem_of_mem_tail he)
  cases c with
  | literal | escaped | anyOf _ | inclusiveList | exclusiveList =>
    cases h
    exact List.forall_mem_cons.2 ⟨List.forall_mem_nil _, hmade⟩
  | group | alternatives =>
    cases h
    exact hmade
  | backref =>
    rw [Step.addPlain] at h
    split at h
    · cases h
      exact List.forall_mem_cons.2 ⟨List.forall_mem_nil _, hmade⟩
    · cases h
  | source =>
    cases h
    exact List.forall_mem_cons.2 ⟨List.forall_mem_singleton.2 hfirst, hmade⟩
  | numeric =>
    rw [Step.addPlain_numeric] at h
    cases hformat : t.numberFormat with
    | error cause =>
      rw [hformat] at h
      cases h
    | ok format =>
      rw [hformat] at h
      cases h
      exact List.forall_mem_cons.2 ⟨List.forall_mem_singleton.2 hfirst, hmade⟩
  | zeroOrMore | zeroOrOne | oneOrMore =>
    exact allExpressions_repeatLast h (List.forall_mem_nil _) hmade
  | exactly | atLeast =>
    rw [Step.addPlain] at h
    exact allExpressions_repeatCounted h (List.forall_mem_singleton.2 hfirst) hmade
  | between =>
    rw [Step.addPlain] at h
    have hboth := List.forall_mem_cons.2 ⟨hfirst, List.forall_mem_singleton.2 hsecond⟩
    exact allExpressions_repeatCounted h hboth hmade

/-- The expressions of a compiled program were read from a text. -/
theorem Program.forall_expressions_of_ofPattern {pattern : String} {program : Program}
    (h : ofPattern config pattern = .ok program) : ∀ e ∈ program.expressions, P e := by
  intro e he
  obtain ⟨step, hstep, he⟩ := mem_stepsExpressions.1 he
  exact forall_of_ofPattern (Step.hereditary_allExpressions P) (keptByPlain_allExpressions hread) h step
    hstep e he

end Read

/-- An expression that is read nests no deeper than the limit. -/
theorem Expr.depth_le_of_parse {text : String} {e : Expr} (h : parse text = .ok e) :
    e.depth ≤ depthLimit := by
  rw [parse] at h
  cases hsum : readBinary (text.toList.length + 1) 0 text.toList with
  | error cause =>
    rw [hsum] at h
    cases h
  | ok m =>
    obtain ⟨tree, rest⟩ := m
    rw [hsum] at h
    cases rest with
    | cons c rest => cases h
    | nil =>
      simp only [bind, Except.bind] at h
      split at h
      next hdepth =>
        cases h
        exact hdepth
      next => cases h

theorem Program.depth_le_of_mem_expressions {config : Config} {pattern : String} {program : Program}
    (h : ofPattern config pattern = .ok program) {e : Expression} (he : e ∈ program.expressions)
    {tree : Expr} (htree : e.parsed = .ok tree) : tree.depth ≤ Expr.depthLimit :=
  forall_expressions_of_ofPattern
    (P := fun e => ∀ tree, e.parsed = .ok tree → tree.depth ≤ Expr.depthLimit)
    (fun _ _ hparsed => Expr.depth_le_of_parse hparsed) h e he tree htree

end PatternText
