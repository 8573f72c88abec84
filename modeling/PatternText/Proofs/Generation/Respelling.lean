import PatternText.Proofs.Generation.CountFaults

/-! Quantifiers spelled in two ways. What may be left out or repeated without limit can be written with
counts as well, and an exact count as an interval of its own. Such bounds leave the same counts to decide
on wherever they stand, or are no counts for the same reason, which quotes the quantifier as it is
written. A step that is alike in this sense is alike in every place of a program: the steps before it are
evaluated first and do the same, and whatever comes after it finds the same progress. -/

namespace PatternText

variable {σ : Type}

/-! ### Results up to the quoted quantifier -/

/-- The faults differ at most in the quantifier that is no count. -/
inductive Fault.Requoted (construct construct' : String) : Fault → Fault → Prop where
  | same (fault : Fault) : Requoted construct construct' fault fault
  | invalidCount (count : Float) :
      Requoted construct construct' (.invalidCount construct count) (.invalidCount construct' count)

theorem Fault.Requoted.symm {construct construct' : String} {fault fault' : Fault}
    (h : fault.Requoted construct construct' fault') : fault'.Requoted construct' construct fault := by
  cases h with
  | same => exact .same fault
  | invalidCount count => exact .invalidCount count

/-- The evaluations leave the same progress, with the same text or with faults that differ at most in the
quoted quantifier. -/
inductive Alike (construct construct' : String) : Evaluation σ → Evaluation σ → Prop where
  | text (text : String) (p : Progress σ) : Alike construct construct' (.ok text, p) (.ok text, p)
  | fault {fault fault' : Fault} (h : fault.Requoted construct construct' fault') (p : Progress σ) :
      Alike construct construct' (.error fault, p) (.error fault', p)

namespace Alike

variable {construct construct' : String}

theorem refl (e : Evaluation σ) : Alike construct construct' e e := by
  obtain ⟨result, p⟩ := e
  cases result with
  | ok text => exact .text text p
  | error fault => exact .fault (.same fault) p

theorem elim {e e' : Evaluation σ} (h : Alike construct construct' e e') :
    (∃ text p, e = (.ok text, p) ∧ e' = (.ok text, p)) ∨
      ∃ fault fault' p, e = (.error fault, p) ∧ e' = (.error fault', p) ∧
        fault.Requoted construct construct' fault' := by
  cases h with
  | text text p => exact .inl ⟨text, p, rfl, rfl⟩
  | fault h p => exact .inr ⟨_, _, p, rfl, rfl, h⟩

end Alike

/-! ### Bounds -/

/-- The bounds say the same, if a step without limit is repeated at most so many times. -/
inductive Bounds.Interchangeable (upperBound : UInt64) : Bounds → Bounds → Prop where
  | zeroOrOne : Interchangeable upperBound .zeroOrOne (.between (.ofText "0") (.ofText "1"))
  | zeroOrMore : Interchangeable upperBound .zeroOrMore (.atLeast (.ofText "0"))
  | oneOrMore (pos : 1 ≤ upperBound) : Interchangeable upperBound .oneOrMore (.atLeast (.ofText "1"))
  | exactly (count : Expression) :
      Interchangeable upperBound (.exactly count) (.between count count)
  | symm {bounds bounds' : Bounds} (h : Interchangeable upperBound bounds bounds') :
      Interchangeable upperBound bounds' bounds

theorem constant?_zero : (Expression.ofText "0").constant? = some 0 := by decide +kernel

theorem constant?_one : (Expression.ofText "1").constant? = some 1 := by decide +kernel

theorem Exact.ofFloat?_zero : Exact.ofFloat? 0 = some ⟨false, 0⟩ := by decide +kernel

theorem Exact.ofFloat?_one : Exact.ofFloat? 1 = some ⟨false, unitsPerOne⟩ := by decide +kernel

theorem Exact.toWord_zero : (Exact.mk false 0).toWord = 0 := by decide +kernel

theorem Exact.toWord_one : (Exact.mk false unitsPerOne).toWord = 1 := by decide +kernel

namespace Setting

variable {s : Setting} {counters : List UInt64} {construct : String}

theorem count_zero : s.count counters (.ofText "0") construct = .ok 0 := by
  rw [count_of_constant? constant?_zero Exact.ofFloat?_zero, ← Exact.toWord_zero]
  rfl

theorem count_one : s.count counters (.ofText "1") construct = .ok 1 := by
  rw [count_of_constant? constant?_one Exact.ofFloat?_one, ← Exact.toWord_one]
  rfl

/-- What counts under one quantifier counts as the same under another one. -/
theorem count_requoted (s : Setting) (counters : List UInt64) (construct construct' : String)
    (e : Expression) :
    (∃ n, s.count counters e construct = .ok n ∧ s.count counters e construct' = .ok n) ∨
      ∃ fault fault', s.count counters e construct = .error fault ∧
        s.count counters e construct' = .error fault' ∧ fault.Requoted construct construct' fault' := by
  rw [count, count]
  cases e.value (s.scope counters) with
  | error fault => exact .inr ⟨fault, fault, rfl, rfl, .same fault⟩
  | ok x =>
    dsimp only
    cases Exact.ofFloat? x with
    | none => exact .inr ⟨_, _, rfl, rfl, .same _⟩
    | some amount =>
      dsimp only
      cases amount.isBelowZero with
      | true => exact .inr ⟨_, _, rfl, rfl, .invalidCount x⟩
      | false => exact .inl ⟨_, rfl, rfl⟩

/-- Interchangeable bounds leave the same counts, or none for the same reason. -/
theorem countRange_requoted {bounds bounds' : Bounds}
    (h : bounds.Interchangeable s.upperBound bounds') (construct construct' : String) :
    (∃ r, s.countRange counters construct bounds = .ok r ∧
        s.countRange counters construct' bounds' = .ok r) ∨
      ∃ fault fault', s.countRange counters construct bounds = .error fault ∧
        s.countRange counters construct' bounds' = .error fault' ∧
        fault.Requoted construct construct' fault' := by
  induction h generalizing construct construct' with
  | zeroOrOne =>
    refine .inl ⟨_, rfl, ?_⟩
    rw [countRange, count_zero, count_one]
    exact dif_pos UInt64.zero_le
  | zeroOrMore =>
    refine .inl ⟨_, rfl, ?_⟩
    rw [countRange, count_zero]
    exact dif_pos UInt64.zero_le
  | oneOrMore pos =>
    refine .inl ⟨⟨1, s.upperBound, pos⟩, dif_pos pos, ?_⟩
    rw [countRange, count_one]
    exact dif_pos pos
  | exactly count =>
    rw [countRange, countRange]
    obtain ⟨n, hn, hn'⟩ | ⟨fault, fault', hfault, hfault', hrequoted⟩ :=
      s.count_requoted counters construct construct' count
    · rw [hn, hn']
      exact .inl ⟨_, rfl, dif_pos (UInt64.le_refl n)⟩
    · rw [hfault, hfault']
      exact .inr ⟨_, _, rfl, rfl, hrequoted⟩
  | symm h ih =>
    obtain ⟨r, hr, hr'⟩ | ⟨fault, fault', hfault, hfault', hrequoted⟩ := ih construct' construct
    · exact .inl ⟨r, hr', hr⟩
    · exact .inr ⟨fault', fault, hfault', hfault, hrequoted.symm⟩

end Setting

/-- Compilation lets interchangeable bounds pass. -/
theorem Bounds.Interchangeable.checkConstant {upperBound : UInt64} {bounds bounds' : Bounds}
    (h : bounds.Interchangeable upperBound bounds') (construct : String) :
    bounds.checkConstant upperBound construct = .ok () ∧
      bounds'.checkConstant upperBound construct = .ok () := by
  induction h with
  | zeroOrOne =>
    refine ⟨rfl, ?_⟩
    rw [Bounds.checkConstant, constant?_zero, constant?_one, Option.bind_some, Option.bind_some,
      Exact.ofFloat?_zero, Exact.ofFloat?_one]
    exact if_neg (by decide +kernel)
  | zeroOrMore =>
    refine ⟨rfl, ?_⟩
    rw [Bounds.checkConstant, constant?_zero, Option.bind_some, Exact.ofFloat?_zero]
    dsimp only
    rw [Exact.toWord_zero, decide_eq_false (UInt64.not_lt.2 UInt64.zero_le), Bool.and_false]
    rfl
  | oneOrMore pos =>
    refine ⟨rfl, ?_⟩
    rw [Bounds.checkConstant, constant?_one, Option.bind_some, Exact.ofFloat?_one]
    dsimp only
    rw [Exact.toWord_one, decide_eq_false (UInt64.not_lt.2 pos), Bool.and_false]
    rfl
  | exactly count =>
    refine ⟨rfl, ?_⟩
    rw [Bounds.checkConstant]
    cases count.constant?.bind Exact.ofFloat? with
    | none => rfl
    | some n => exact if_neg (Int.lt_irrefl _)
  | symm h ih => exact ih.symm

/-! ### Places of a program -/

/-- A step with a hole in it, inside any groups, loops and branches. -/
inductive StepContext where
  | hole
  | group (id : Nat) (front : List Step) (inner : StepContext) (back : List Step)
  | repetition (inner : StepContext) (bounds : Bounds) (construct : String)
  | alternation (before : List (List Step)) (front : List Step) (inner : StepContext)
      (back : List Step) (after : List (List Step))

/-- The step with the hole filled. -/
def StepContext.fill (step : Step) : StepContext → Step
  | hole => step
  | group id front inner back => .group id (front ++ inner.fill step :: back)
  | repetition inner bounds construct => .repetition (inner.fill step) bounds construct
  | alternation before front inner back after =>
    .alternation (before ++ (front ++ inner.fill step :: back) :: after)

/-- A program with a hole in it. -/
structure ProgramContext where
  front : List Step
  inner : StepContext
  back : List Step
  groupCount : Nat

/-- The program with the hole filled. -/
def ProgramContext.fill (context : ProgramContext) (step : Step) : Program where
  steps := context.front ++ context.inner.fill step :: context.back
  groupCount := context.groupCount

section Congruence

variable [Chooser σ] {s : Setting} {construct construct' : String}

/-- The steps are alike inside any loops and after any progress. -/
def StepAlike (σ : Type) [Chooser σ] (s : Setting) (construct construct' : String)
    (step step' : Step) : Prop :=
  ∀ counters (p : Progress σ),
    Alike construct construct' (evalStep s counters step p) (evalStep s counters step' p)

theorem alike_evalSteps {step step' : Step} (h : StepAlike σ s construct construct' step step')
    (counters : List UInt64) (acc : String) (front back : List Step) (p : Progress σ) :
    Alike construct construct' (evalSteps s counters acc (front ++ step :: back) p)
      (evalSteps s counters acc (front ++ step' :: back) p) := by
  induction front generalizing acc p with
  | nil =>
    rw [List.nil_append, List.nil_append, evalSteps, evalSteps]
    obtain ⟨text, p, he, he'⟩ | ⟨fault, fault', p, he, he', hrequoted⟩ := (h counters p).elim
    · rw [he, he']
      exact .refl _
    · rw [he, he']
      exact .fault hrequoted p
  | cons first front ih =>
    rw [List.cons_append, List.cons_append, evalSteps, evalSteps]
    obtain ⟨result, p⟩ := evalStep s counters first p
    cases result with
    | ok text => exact ih (acc ++ text) p
    | error fault => exact .refl _

omit [Chooser σ] in
theorem alike_joinLoop {body body' : UInt64 → Progress σ → Evaluation σ}
    (h : ∀ i p, Alike construct construct' (body i p) (body' i p)) (acc : String) (i : UInt64)
    (count : Nat) (p : Progress σ) :
    Alike construct construct' (joinLoop body acc i count p) (joinLoop body' acc i count p) := by
  induction count generalizing acc i p with
  | zero => exact .refl _
  | succ count ih =>
    rw [joinLoop, joinLoop]
    obtain ⟨text, p, he, he'⟩ | ⟨fault, fault', p, he, he', hrequoted⟩ := (h i p).elim
    · rw [he, he']
      exact ih (acc ++ text) (i + 1) p
    · rw [he, he']
      exact .fault hrequoted p

theorem alike_evalBranch {counters : List UInt64} {branch branch' : List Step}
    (h : ∀ p : Progress σ, Alike construct construct' (evalSteps s counters "" branch p)
      (evalSteps s counters "" branch' p)) (before after : List (List Step)) (i : Nat)
    (p : Progress σ) :
    Alike construct construct' (evalBranch s counters (before ++ branch :: after) i p)
      (evalBranch s counters (before ++ branch' :: after) i p) := by
  induction before generalizing i with
  | nil =>
    cases i with
    | zero => exact h p
    | succ i => exact .refl _
  | cons first before ih =>
    cases i with
    | zero => exact .refl _
    | succ i => exact ih i

namespace StepAlike

theorem group (id : Nat) {steps steps' : List Step}
    (h : ∀ counters (p : Progress σ), Alike construct construct' (evalSteps s counters "" steps p)
      (evalSteps s counters "" steps' p)) :
    StepAlike σ s construct construct' (.group id steps) (.group id steps') := by
  intro counters p
  rw [evalStep, evalStep]
  obtain ⟨text, p, he, he'⟩ | ⟨fault, fault', p, he, he', hrequoted⟩ := (h counters (p.enter id)).elim
  · rw [he, he']
    exact .refl _
  · rw [he, he']
    exact .fault hrequoted p

theorem repetition {step step' : Step} (h : StepAlike σ s construct construct' step step')
    (bounds : Bounds) (quantifier : String) : StepAlike σ s construct construct'
      (.repetition step bounds quantifier) (.repetition step' bounds quantifier) := by
  intro counters p
  rw [evalStep, evalStep]
  cases s.countRange counters quantifier bounds with
  | error fault => exact .refl _
  | ok r => exact alike_joinLoop (fun i p => h (i :: counters) p) _ _ _ _

/-- A choice between as many branches is the same choice. -/
theorem alternation {branches branches' : List (List Step)}
    (hlength : branches.length = branches'.length)
    (h : ∀ counters i (p : Progress σ), Alike construct construct'
      (evalBranch s counters branches i p) (evalBranch s counters branches' i p)) :
    StepAlike σ s construct construct' (.alternation branches) (.alternation branches') := by
  intro counters p
  by_cases hpos : 0 < branches'.length
  · rw [evalStep_alternation s rfl hpos, evalStep_alternation s hlength hpos]
    exact h counters _ _
  · rw [evalStep, evalStep, dif_neg hpos, dif_neg (hlength ▸ hpos)]
    exact .refl _

/-- Interchangeable bounds make alike repetitions. -/
theorem respelled {bounds bounds' : Bounds} (h : bounds.Interchangeable s.upperBound bounds')
    (step : Step) : StepAlike σ s construct construct' (.repetition step bounds construct)
      (.repetition step bounds' construct') := by
  intro counters p
  rw [evalStep, evalStep]
  obtain ⟨r, hr, hr'⟩ | ⟨fault, fault', hfault, hfault', hrequoted⟩ :=
    Setting.countRange_requoted h construct construct'
  · rw [hr, hr']
    exact .refl _
  · rw [hfault, hfault']
    exact .fault hrequoted p

/-- Alike steps are alike in every place. -/
theorem fill {step step' : Step} (h : StepAlike σ s construct construct' step step')
    (context : StepContext) :
    StepAlike σ s construct construct' (context.fill step) (context.fill step') := by
  induction context with
  | hole => exact h
  | group id front inner back ih =>
    exact group id fun counters p => alike_evalSteps ih counters "" front back p
  | repetition inner bounds quantifier ih => exact ih.repetition bounds quantifier
  | alternation before front inner back after ih =>
    refine alternation ?_ fun counters i p =>
      alike_evalBranch (fun p => alike_evalSteps ih counters "" front back p) before after i p
    rw [List.length_append, List.length_append, List.length_cons, List.length_cons]

end StepAlike

end Congruence

/-- A quantifier can be respelled anywhere in a program. In every state of the generator both programs
yield the same text, or fault with the same cause up to the quantifier that the fault quotes, and leave the
same random source and the same memory of the first range; and compilation lets both spellings pass. -/
theorem generate_respelled [Chooser σ] (g : Generator σ) (context : ProgramContext) (step : Step)
    {bounds bounds' : Bounds} (h : bounds.Interchangeable g.upperBound bounds')
    (construct construct' : String) :
    let first := Generator.generate { g with program := context.fill (.repetition step bounds construct) }
    let second :=
      Generator.generate { g with program := context.fill (.repetition step bounds' construct') }
    ((∃ text, first.1 = .ok text ∧ second.1 = .ok text) ∨
      ∃ fault fault', first.1 = .error ⟨g.rangeIndex, fault⟩ ∧
        second.1 = .error ⟨g.rangeIndex, fault'⟩ ∧ fault.Requoted construct construct' fault') ∧
    first.2.chooser = second.2.chooser ∧ first.2.firstGroups = second.2.firstGroups ∧
    bounds.checkConstant g.upperBound construct = .ok () ∧
    bounds'.checkConstant g.upperBound construct' = .ok () := by
  intro first second
  have hstep : StepAlike σ g.setting construct construct' (.repetition step bounds construct)
      (.repetition step bounds' construct') := .respelled h step
  have halike := alike_evalSteps (hstep.fill context.inner) [] "" context.front context.back
    { chooser := g.chooser, captures := #[], firstGroups := g.firstGroups }
  have hcheck := And.intro (h.checkConstant construct).1 (h.checkConstant construct').2
  obtain ⟨text, p, he, he'⟩ | ⟨fault, fault', p, he, he', hrequoted⟩ := halike.elim
  · have hfirst : first = _ := Generator.generate_of_evalSteps _ he
    have hsecond : second = _ := Generator.generate_of_evalSteps _ he'
    rw [hfirst, hsecond]
    exact ⟨.inl ⟨text, rfl, rfl⟩, rfl, rfl, hcheck⟩
  · have hfirst : first = _ := Generator.generate_of_evalSteps _ he
    have hsecond : second = _ := Generator.generate_of_evalSteps _ he'
    rw [hfirst, hsecond]
    exact ⟨.inr ⟨fault, fault', rfl, rfl, hrequoted⟩, rfl, rfl, hcheck⟩

/-- In its first round the loop around asks for a letter minus once, in either spelling. -/
theorem countedDown_respelled :
    let g := Generator.ofProgram (.ofSettings {}) ⟨[], 0⟩ 1
    let context : ProgramContext := ⟨[], .repetition (.group 0 [] .hole []) .oneOrMore "+", [], 1⟩
    let once : Step := .repetition (.literal "b") (.exactly (.ofText "i-1")) "{i-1}"
    let twice : Step :=
      .repetition (.literal "b") (.between (.ofText "i-1") (.ofText "i-1")) "{i-1,i-1}"
    let first := Generator.generate { g with program := context.fill once }
    let second := Generator.generate { g with program := context.fill twice }
    Bounds.Interchangeable g.upperBound (.exactly (.ofText "i-1"))
      (.between (.ofText "i-1") (.ofText "i-1")) ∧
    (∃ fault fault', first.1 = .error ⟨0, fault⟩ ∧ second.1 = .error ⟨0, fault'⟩ ∧
      fault.Requoted "{i-1}" "{i-1,i-1}" fault') ∧
    first.2.chooser = second.2.chooser := by
  intro g context once twice first second
  have h : Bounds.Interchangeable g.upperBound (.exactly (.ofText "i-1"))
      (.between (.ofText "i-1") (.ofText "i-1")) := .exactly _
  have hfault : first.1.toOption.isNone = true := by decide +kernel
  obtain ⟨⟨text, htext, -⟩ | hfaults, hchooser, -⟩ :=
    generate_respelled g context (.literal "b") h "{i-1}" "{i-1,i-1}"
  · have htext : first.1 = .ok text := htext
    rw [htext] at hfault
    cases hfault
  · exact ⟨h, hfaults, hchooser⟩

end PatternText
