import PatternText.Proofs.Generation.LoopCounters
import PatternText.Proofs.Number.Words
import PatternText.Proofs.Program.Compiled
import PatternText.Proofs.Program.Compose

/-! Bounds that a range refuses. A loop with an open or a closed interval of counts stops a generation if
its least count is above what is allowed. Compilation looks at the bounds without variables in the same
way: such an expression has one value for all scopes, cutting to a whole number and then to a word keeps
the order, and every loop of a program has passed the check. So the loop that stops a generation in this
way has a variable in its bounds. -/

namespace PatternText

/-! ### Expressions without variables -/

namespace Expr

/-- The letters of the variables in an expression, from left to right. -/
def mentioned : Expr → List Char
  | number _ => []
  | counter => ['i']
  | outerCounter e => 'j' :: e.mentioned
  | sourceCount => ['N']
  | sourceValue e => 'S' :: e.mentioned
  | negate e => e.mentioned
  | binary _ l r => l.mentioned ++ r.mentioned

theorem isConstant_iff (e : Expr) : e.isConstant = true ↔ e.mentioned = [] := by
  induction e with
  | number _ => exact iff_of_true rfl rfl
  | counter | outerCounter _ _ | sourceCount | sourceValue _ _ =>
    exact iff_of_false Bool.false_ne_true (List.cons_ne_nil _ _)
  | negate e ih => exact ih
  | binary op l r ihl ihr =>
    rw [isConstant, mentioned, Bool.and_eq_true, List.append_eq_nil_iff, ihl, ihr]

/-- Without variables the scope is not looked at. -/
theorem eval?_congr {e : Expr} (h : e.mentioned = []) (scope scope' : Scope) :
    e.eval? scope = e.eval? scope' := by
  induction e with
  | number _ => rfl
  | counter | outerCounter _ _ | sourceCount | sourceValue _ _ => cases h
  | negate e ih => rw [eval?, eval?, ih h]
  | binary op l r ihl ihr =>
    obtain ⟨hl, hr⟩ := List.append_eq_nil_iff.1 h
    rw [eval?, eval?, ihl hl, ihr hr]

end Expr

namespace Expression

/-- The letters of the variables in an expression; none if it cannot be read. -/
def mentioned (e : Expression) : List Char :=
  match e.parsed with
  | .ok tree => tree.mentioned
  | .error _ => []

/-- Without variables the value in any scope is the one that compilation knows. -/
theorem constant?_of_eval {e : Expression} (h : e.mentioned = []) {scope : Scope} {x : Float}
    (hx : e.eval scope = .ok x) : e.constant? = some x := by
  rw [mentioned] at h
  rw [eval] at hx
  rw [constant?]
  cases hparsed : e.parsed with
  | error cause =>
    rw [hparsed] at hx
    cases hx
  | ok tree =>
    rw [hparsed] at h hx
    dsimp only at h hx ⊢
    rw [if_pos (tree.isConstant_iff.2 h), Expr.evalFinite?, tree.eval?_congr h {} scope,
      ← Expr.evalFinite?]
    cases hvalue : tree.evalFinite? scope with
    | none =>
      rw [hvalue] at hx
      cases hx
    | some y =>
      rw [hvalue] at hx
      rw [Except.ok.inj hx]

/-- The value that compilation knows is the value in every scope. -/
theorem eval_of_constant? {e : Expression} {x : Float} (h : e.constant? = some x) (scope : Scope) :
    e.eval scope = .ok x := by
  rw [constant?] at h
  rw [eval]
  cases hparsed : e.parsed with
  | error cause =>
    rw [hparsed] at h
    cases h
  | ok tree =>
    rw [hparsed] at h
    dsimp only at h ⊢
    split at h
    next hconstant =>
      rw [Expr.evalFinite?, tree.eval?_congr (tree.isConstant_iff.1 hconstant) scope {},
        ← Expr.evalFinite?, h]
    next => cases h

end Expression

/-! ### Counts -/

/-- A value that is missing is no fault of numbers in a construct. -/
theorem Expression.value_ne_number {e : Expression} {scope : Scope} {cause : NumberError} :
    e.value scope ≠ .error (.number cause) := by
  rw [value]
  rcases e.eval scope with (cause | _) | x <;> nofun

namespace Bounds

/-- The expressions between the braces. -/
def expressions : Bounds → List Expression
  | zeroOrMore | zeroOrOne | oneOrMore => []
  | exactly n | atLeast n => [n]
  | between n m => [n, m]

end Bounds

namespace Setting

variable {s : Setting} {counters : List UInt64} {construct : String} {e : Expression}
  {bounds : Bounds} {cause : NumberError}

theorem count_eq_ok {n : UInt64} (h : s.count counters e construct = .ok n) :
    ∃ x amount, e.eval (s.scope counters) = .ok x ∧ Exact.ofFloat? x = some amount ∧
      amount.isBelowZero = false ∧ amount.toWord = n := by
  rw [count, Expression.value] at h
  cases hvalue : e.eval (s.scope counters) with
  | error cause =>
    rw [hvalue] at h
    cases cause <;> cases h
  | ok x =>
    rw [hvalue] at h
    dsimp only at h
    cases hamount : Exact.ofFloat? x with
    | none =>
      rw [hamount] at h
      cases h
    | some amount =>
      rw [hamount] at h
      dsimp only at h
      split at h
      · cases h
      next hsign => exact ⟨x, amount, rfl, hamount, Bool.eq_false_iff.2 hsign, Except.ok.inj h⟩

/-- A count of an expression without variables is the one that compilation knows. -/
theorem constant?_of_count {n : UInt64} (hconstant : e.mentioned = [])
    (h : s.count counters e construct = .ok n) :
    ∃ amount, e.constant?.bind Exact.ofFloat? = some amount ∧ amount.isBelowZero = false ∧
      amount.toWord = n := by
  obtain ⟨x, amount, hvalue, hamount, hsign, hword⟩ := count_eq_ok h
  refine ⟨amount, ?_, hsign, hword⟩
  rw [Expression.constant?_of_eval hconstant hvalue, Option.bind_some, hamount]

/-- A constant counts everywhere as the same number, or is below zero everywhere. -/
theorem count_of_constant? {x : Float} {amount : Exact} (hx : e.constant? = some x)
    (hamount : Exact.ofFloat? x = some amount) : s.count counters e construct =
      if amount.isBelowZero then .error (.invalidCount construct x) else .ok amount.toWord := by
  rw [count, Expression.value, Expression.eval_of_constant? hx]
  dsimp only
  rw [hamount]

theorem count_ne_number : s.count counters e construct ≠ .error (.number cause) := by
  rw [count]
  split
  next fault hvalue =>
    intro h
    cases h
    exact Expression.value_ne_number hvalue
  next x hvalue =>
    cases Exact.ofFloat? x with
    | none => nofun
    | some amount =>
      dsimp only
      split <;> nofun

/-- Inside loops with these counters the bounds leave no count, and this is why. -/
inductive Refuses (s : Setting) (counters : List UInt64) (construct : String) :
    Bounds → NumberError → Prop where
  | atLeast {least : Expression} {n : UInt64} (hleast : s.count counters least construct = .ok n)
      (habove : s.upperBound < n) :
      Refuses s counters construct (.atLeast least)
        (.minimumAboveUpperBound n s.upperBound construct)
  | between {least most : Expression} {n m : UInt64}
      (hleast : s.count counters least construct = .ok n)
      (hmost : s.count counters most construct = .ok m) (hbelow : m < n) :
      Refuses s counters construct (.between least most) (.boundsOutOfOrder construct)

theorem refuses_of_countRange (h : s.countRange counters construct bounds = .error (.number cause)) :
    s.Refuses counters construct bounds cause := by
  cases bounds with
  | zeroOrMore | zeroOrOne => cases h
  | oneOrMore =>
    rw [countRange] at h
    split at h <;> cases h
  | exactly n =>
    rw [countRange] at h
    split at h
    next fault hn =>
      cases h
      exact absurd hn count_ne_number
    next => cases h
  | atLeast least =>
    rw [countRange] at h
    split at h
    next fault hn =>
      cases h
      exact absurd hn count_ne_number
    next n hn =>
      split at h
      · cases h
      next hle =>
        cases h
        exact .atLeast hn (UInt64.not_le.1 hle)
  | between least most =>
    rw [countRange] at h
    split at h
    next fault hn =>
      cases h
      exact absurd hn count_ne_number
    next n hn =>
      split at h
      next fault hm =>
        cases h
        exact absurd hm count_ne_number
      next m hm =>
        split at h
        · cases h
        next hle =>
          cases h
          exact .between hn hm (UInt64.not_le.1 hle)

/-- Bounds without variables that compilation lets pass are refused nowhere. -/
theorem not_refuses {construct' : String}
    (hcheck : bounds.checkConstant s.upperBound construct' = .ok ())
    (hconstant : ∀ e ∈ bounds.expressions, e.mentioned = []) :
    ¬s.Refuses counters construct bounds cause := by
  intro h
  cases h with
  | @atLeast least n hleast habove =>
    have hnone : least.mentioned = [] := hconstant least (List.mem_singleton_self least)
    obtain ⟨amount, hamount, hsign, rfl⟩ := constant?_of_count hnone hleast
    rw [Bounds.checkConstant, hamount] at hcheck
    dsimp only at hcheck
    rw [hsign, if_pos (by simp [habove])] at hcheck
    cases hcheck
  | @between least most n m hleast hmost hbelow =>
    have hnone : least.mentioned = [] := hconstant least List.mem_cons_self
    have hnone' : most.mentioned = [] := hconstant most (List.mem_cons_of_mem _ (List.mem_singleton_self _))
    obtain ⟨amount, hamount, hsign, rfl⟩ := constant?_of_count hnone hleast
    obtain ⟨amount', hamount', hsign', rfl⟩ := constant?_of_count hnone' hmost
    rw [Bounds.checkConstant, hamount, hamount'] at hcheck
    dsimp only at hcheck
    by_cases horder : amount'.toInt < amount.toInt
    · rw [if_pos horder] at hcheck
      cases hcheck
    · have hle := Exact.toWord_le_toWord hsign hsign' (Int.not_lt.1 horder)
      exact absurd hbelow (UInt64.not_lt.2 hle)

end Setting

/-! ### Generations that such bounds stop -/

variable {σ : Type} {s : Setting} {cause : NumberError}

/-- A step without steps inside has no count to refuse. -/
theorem evalStep_ne_number [Chooser σ] {counters : List UInt64} {step : Step}
    (h : step.isSimple = true) (p : Progress σ) :
    (evalStep s counters step p).1 ≠ .error (.number cause) := by
  cases step with
  | group _ _ | repetition _ _ _ | alternation _ => cases h
  | literal text | oneOf chars =>
    intro h
    cases h
  | backref place =>
    rw [evalStep]
    split <;> (intro h; cases h)
  | numeric value format =>
    rw [evalStep]
    intro h
    split at h
    · cases h
    next fault hvalue =>
      cases h
      exact Expression.value_ne_number hvalue
  | source place modifier construct =>
    rw [evalStep, Setting.sourceText]
    intro h
    split at h
    next fault hvalue =>
      cases h
      exact Expression.value_ne_number hvalue
    next =>
      dsimp only at h
      split at h
      · cases h
      · split at h <;> cases h

/-- The latest moment of the course is before a loop whose bounds are refused for this cause. -/
def Course.StopsAtLoop (s : Setting) (cause : NumberError) (c : Course σ) : Prop :=
  ∃ m step bounds construct, c.moments.head? = some m ∧
    m.next = some (.repetition step bounds construct) ∧ s.Refuses m.counters construct bounds cause

theorem runLoop_stops {body : UInt64 → Course σ → Run σ}
    (hbody : ∀ i c c', body i c = (.error (.number cause), c') → c'.StopsAtLoop s cause)
    {acc : String} {i : UInt64} {count : Nat} {c c' : Course σ}
    (h : runLoop body acc i count c = (.error (.number cause), c')) : c'.StopsAtLoop s cause := by
  induction count generalizing acc i c with
  | zero => cases h
  | succ count ih =>
    rw [runLoop] at h
    split at h
    · exact ih h
    next fault c'' hround =>
      cases h
      exact hbody i _ _ hround

mutual

theorem runStep_stops [Chooser σ] {around : Around} {step : Step} {c c' : Course σ}
    (h : runStep s around step c = (.error (.number cause), c')) : c'.StopsAtLoop s cause := by
  cases step with
  | group id body =>
    rw [runStep] at h
    split at h
    · cases h
    next fault c'' hbody =>
      cases h
      exact runSteps_stops hbody
  | repetition step bounds construct =>
    rw [runStep] at h
    dsimp only at h
    split at h
    next fault hrange =>
      cases h
      exact ⟨_, step, bounds, construct, rfl, rfl, Setting.refuses_of_countRange hrange⟩
    next r hrange =>
      split at h
      · cases h
      next fault c'' hloop =>
        cases h
        exact runLoop_stops (fun _ _ _ hround => runStep_stops hround) hloop
  | alternation branches =>
    rw [runStep] at h
    dsimp only at h
    split at h
    · exact runBranch_stops h
    · cases h
  | literal _ | oneOf _ | backref _ | source _ _ _ | numeric _ _ =>
    rw [runStep_eq_of_isSimple s around rfl] at h
    exact absurd (congrArg Prod.fst h) (evalStep_ne_number rfl c.progress)

theorem runSteps_stops [Chooser σ] {around : Around} {acc : String} {steps : List Step}
    {c c' : Course σ} (h : runSteps s around acc steps c = (.error (.number cause), c')) :
    c'.StopsAtLoop s cause := by
  cases steps with
  | nil => cases h
  | cons step steps =>
    rw [runSteps] at h
    split at h
    · exact runSteps_stops h
    next fault c'' hstep =>
      cases h
      exact runStep_stops hstep

theorem runBranch_stops [Chooser σ] {around : Around} {branches : List (List Step)} {i : Nat}
    {c c' : Course σ} (h : runBranch s around branches i c = (.error (.number cause), c')) :
    c'.StopsAtLoop s cause := by
  cases branches with
  | nil => cases h
  | cons branch branches =>
    cases i with
    | zero =>
      rw [runBranch] at h
      exact runSteps_stops h
    | succ i =>
      rw [runBranch] at h
      exact runBranch_stops h

end

/-- Bounds without variables that compilation lets pass are refused in no scope. If a generation of a
compiled pattern stops because of the numbers in a construct, its latest moment is before a loop of the
program, inside the rounds whose indexes are the counters there, which refuses its bounds for this cause
and has a variable in them. -/
theorem Generator.refused_bounds_have_variable {config : Config} {pattern : String} {program : Program}
    (hprogram : Program.ofPattern config pattern = .ok program) :
    (∀ (bounds : Bounds) (construct : String),
      bounds.checkConstant config.upperBound construct = .ok () →
      (∀ e ∈ bounds.expressions, e.mentioned = []) →
      ∀ (s : Setting), s.upperBound = config.upperBound → ∀ counters cause,
        s.countRange counters construct bounds ≠ .error (.number cause)) ∧
    ∀ {σ : Type} [Chooser σ] (g : Generator σ), g.program = program →
      g.upperBound = config.upperBound → ∀ error cause, g.generate.1 = .error error →
      error.fault = .number cause →
        ∃ m step bounds construct, g.generateRun.2.moments.head? = some m ∧
          m.next = some (.repetition step bounds construct) ∧
          Stands program.steps m.around (.repetition step bounds construct) ∧
          m.counters = m.around.rounds ∧ g.setting.Refuses m.counters construct bounds cause ∧
          ∃ e ∈ bounds.expressions, e.mentioned ≠ [] := by
  refine ⟨fun bounds construct hcheck hconstant s hs counters cause h => ?_, ?_⟩
  · exact Setting.not_refuses (hs ▸ hcheck) hconstant (Setting.refuses_of_countRange h)
  · intro σ _ g hg hbound error cause herror hcause
    have hrun : g.generateRun = (.error (.number cause), g.generateRun.2) := by
      rw [g.generate_eq_generateRun] at herror
      dsimp only at herror
      cases hresult : g.generateRun.1 with
      | ok text =>
        rw [hresult] at herror
        cases herror
      | error fault =>
        rw [hresult] at herror
        cases herror
        rw [← hcause, ← hresult]
    obtain ⟨m, step, bounds, construct, hhead, hnext, hrefuses⟩ := runSteps_stops hrun
    have hafter : After (Stacked g.program.steps []) {} g.generateRun :=
      (stacked_kept g.program.steps []).runSteps g.setting (fun _ => .outermost) ""
        ⟨rfl, fun _ hmem => absurd hmem List.not_mem_nil⟩
    obtain ⟨inside, hstacked⟩ := hafter.exists_inside
    obtain ⟨hcounters, hstands⟩ := hstacked.moments m (List.mem_of_mem_head? hhead)
    have hstands := hg ▸ hstands _ hnext
    refine ⟨m, step, bounds, construct, hhead, hnext, hstands, ?_, hrefuses, ?_⟩
    · rw [hcounters, List.append_nil]
    · have hcheck := hstands.checked (Program.compiled_of_ofPattern hprogram)
      rw [← hbound] at hcheck
      by_cases hvariable : ∃ e ∈ bounds.expressions, e.mentioned ≠ []
      · exact hvariable
      · have hconstant : ∀ e ∈ bounds.expressions, e.mentioned = [] := fun e he =>
          Decidable.not_not.1 fun hne => hvariable ⟨e, he, hne⟩
        exact absurd hrefuses (Setting.not_refuses hcheck hconstant)

/-- A letter that is repeated at least as often as the index of the range says, and at most once for each
source group. -/
def countedLetter : Program :=
  ⟨[.repetition (.literal "a") (.between (.ofText "i") (.ofText "N")) "{i,N}"], 0⟩

theorem countedLetter_compiled (config : Config) :
    Program.ofPattern config "a{i,N}" = .ok countedLetter := by
  have hletter : Program.ofText config "a" = .ok ⟨[.literal "a"], 0⟩ :=
    Program.ofText_plain (c := 'a') (by decide)
  have hfactor : IsFactor "a" := isFactor_base (.atom (.plain 'a' (by decide)))
  have hconstant : (Expression.ofText "i").constant? = none := by
    rw [← Option.isNone_iff_eq_none]
    decide +kernel
  have hcheck : (Bounds.between (.ofText "i") (.ofText "N")).checkConstant config.upperBound "{i,N}" =
      .ok () := by
    rw [Bounds.checkConstant, hconstant]
    rfl
  obtain ⟨step, hstep, hrepeat⟩ := Program.ofText_quantifier hletter hfactor
  cases hstep
  have hloop := hrepeat (.between
    ⟨['i'], by decide, List.forall_mem_singleton.2 (by decide)⟩
    ⟨['N'], by decide, List.forall_mem_singleton.2 (by decide)⟩) hcheck
  rw [Program.ofPattern_eq, if_neg (by decide)]
  exact hloop.trans (Program.limited_of_le (by decide))

/-- The second range without any source group asks for once up to never. -/
theorem countedLetter_refused :
    let g := (Generator.ofProgram (.ofSettings {}) countedLetter 1).setRange 1 #[]
    Program.ofPattern (.ofSettings {}) "a{i,N}" = .ok countedLetter ∧
    ∃ error cause, g.generate.1 = .error error ∧ error.fault = .number cause ∧
      ∃ m step bounds construct, g.generateRun.2.moments.head? = some m ∧
        m.next = some (.repetition step bounds construct) ∧
        Stands countedLetter.steps m.around (.repetition step bounds construct) ∧
        m.counters = m.around.rounds ∧ g.setting.Refuses m.counters construct bounds cause ∧
        ∃ e ∈ bounds.expressions, e.mentioned ≠ [] := by
  intro g
  have hcompiled := countedLetter_compiled (.ofSettings {})
  have hfault : (match g.generate.1 with
      | .error ⟨_, .number (.boundsOutOfOrder _)⟩ => true
      | _ => false) = true := by decide +kernel
  split at hfault
  next index text herror =>
    exact ⟨hcompiled, _, _, herror, rfl,
      (Generator.refused_bounds_have_variable hcompiled).2 g rfl rfl _ _ herror rfl⟩
  next => cases hfault

end PatternText
