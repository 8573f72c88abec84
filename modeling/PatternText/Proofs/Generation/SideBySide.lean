import PatternText.Proofs.Program.Compiled
import PatternText.Proofs.Program.Numbering

/-! Two evaluations side by side. The second one is of the same steps, with their groups under other
numbers. If the two begin at progress that is related, if every single change keeps the relation, and if
a simple step has the same result on both sides wherever it holds, then the evaluations have the same
result and end at progress that is related, after a fault no less than after a text. -/

namespace PatternText

mutual

/-- The step with every group in it under the number that `rename` gives it. -/
def Step.renumber (rename : Nat → Nat) : Step → Step
  | .group id body => .group (rename id) (renumberSteps rename body)
  | .repetition step bounds construct => .repetition (step.renumber rename) bounds construct
  | .alternation branches => .alternation (renumberBranches rename branches)
  | .literal text => .literal text
  | .oneOf chars => .oneOf chars
  | .backref place => .backref place
  | .source place modifier construct => .source place modifier construct
  | .numeric value format => .numeric value format

def renumberSteps (rename : Nat → Nat) : List Step → List Step
  | [] => []
  | step :: steps => step.renumber rename :: renumberSteps rename steps

def renumberBranches (rename : Nat → Nat) : List (List Step) → List (List Step)
  | [] => []
  | branch :: branches => renumberSteps rename branch :: renumberBranches rename branches

end

theorem length_renumberBranches (rename : Nat → Nat) (branches : List (List Step)) :
    (renumberBranches rename branches).length = branches.length := by
  induction branches with
  | nil => rfl
  | cons branch branches ih => rw [renumberBranches, List.length_cons, List.length_cons, ih]

mutual

theorem Step.renumber_id (step : Step) : step.renumber id = step := by
  cases step with
  | literal _ | oneOf _ | backref _ | source _ _ _ | numeric _ _ => rfl
  | group n body => rw [Step.renumber, renumberSteps_id body, id]
  | repetition step bounds construct => rw [Step.renumber, Step.renumber_id step]
  | alternation branches => rw [Step.renumber, renumberBranches_id branches]

theorem renumberSteps_id (steps : List Step) : renumberSteps id steps = steps := by
  cases steps with
  | nil => rfl
  | cons step steps => rw [renumberSteps, Step.renumber_id step, renumberSteps_id steps]

theorem renumberBranches_id (branches : List (List Step)) : renumberBranches id branches = branches := by
  cases branches with
  | nil => rfl
  | cons branch branches =>
    rw [renumberBranches, renumberSteps_id branch, renumberBranches_id branches]

end

variable {σ τ : Type}

/-- The evaluations have the same result, and what they leave is related. -/
structure Matched (R : Progress σ → Progress τ → Prop) (e : Evaluation σ) (e' : Evaluation τ) : Prop where
  result : e.1 = e'.1
  progress : R e.2 e'.2

section Matched

variable {R : Progress σ → Progress τ → Prop}

theorem Matched.elim {e : Evaluation σ} {e' : Evaluation τ} (h : Matched R e e') :
    (∃ text p p', e = (.ok text, p) ∧ e' = (.ok text, p') ∧ R p p') ∨
      ∃ fault p p', e = (.error fault, p) ∧ e' = (.error fault, p') ∧ R p p' := by
  obtain ⟨result, p⟩ := e
  obtain ⟨result', p'⟩ := e'
  obtain ⟨rfl, hp⟩ : result = result' ∧ R p p' := ⟨h.result, h.progress⟩
  cases result with
  | ok text => exact .inl ⟨text, p, p', rfl, rfl, hp⟩
  | error fault => exact .inr ⟨fault, p, p', rfl, rfl, hp⟩

theorem matched_joinLoop {body : UInt64 → Progress σ → Evaluation σ}
    {body' : UInt64 → Progress τ → Evaluation τ}
    (hbody : ∀ i p p', R p p' → Matched R (body i p) (body' i p')) (acc : String) (i : UInt64)
    (count : Nat) {p : Progress σ} {p' : Progress τ} (h : R p p') :
    Matched R (joinLoop body acc i count p) (joinLoop body' acc i count p') := by
  induction count generalizing acc i p p' with
  | zero => exact ⟨rfl, h⟩
  | succ count ih =>
    rw [joinLoop, joinLoop]
    rcases (hbody i p p' h).elim with ⟨text, q, q', he, he', hq⟩ | ⟨fault, q, q', he, he', hq⟩
    · rw [he, he']
      exact ih (acc ++ text) (i + 1) hq
    · rw [he, he']
      exact ⟨rfl, hq⟩

end Matched

/-- A property that steps pass to the steps inside them. -/
structure Step.PassedDown (P : Step → Prop) : Prop where
  body {id : Nat} {body : List Step} (h : P (.group id body)) : ∀ step ∈ body, P step
  operand {step : Step} {bounds : Bounds} {construct : String}
    (h : P (.repetition step bounds construct)) : P step
  branches {branches : List (List Step)} (h : P (.alternation branches)) :
    ∀ branch ∈ branches, ∀ step ∈ branch, P step

/-- The relation holds on through every single change, as far as steps are as `P` says. -/
structure Coupled [Chooser σ] (s : Setting) (rename : Nat → Nat) (P : Step → Prop)
    (R : Progress σ → Progress σ → Prop) : Prop where
  passedDown : Step.PassedDown P
  chooser {p p' : Progress σ} (h : R p p') : p'.chooser = p.chooser
  decided {p p' : Progress σ} (h : R p p') (chooser : σ) : R { p with chooser } { p' with chooser }
  enter {p p' : Progress σ} (h : R p p') {id : Nat} {body : List Step} (hP : P (.group id body)) :
    R (p.enter id) (p'.enter (rename id))
  complete {p p' : Progress σ} (h : R p p') {id : Nat} {body : List Step} (hP : P (.group id body))
    (text : String) : R (p.complete id text) (p'.complete (rename id) text)
  captured? {p p' : Progress σ} (h : R p p') (place : UInt64) : p'.captured? place = p.captured? place
  source {p p' : Progress σ} (h : R p p') {place : Expression} {modifier : Option FirstModifier}
    {construct : String} (hP : P (.source place modifier construct)) (counters : List UInt64) :
    Matched R (s.sourceText counters place modifier construct p)
      (s.sourceText counters place modifier construct p')

namespace Coupled

variable [Chooser σ] {s : Setting} {rename : Nat → Nat} {P : Step → Prop}
  {R : Progress σ → Progress σ → Prop}

/-- A simple step reads the source of decisions, the captured texts and the first range. -/
theorem simple (coupled : Coupled s rename P R) (counters : List UInt64) {step : Step}
    (hsimple : step.isSimple = true) (hP : P step) {p p' : Progress σ} (h : R p p') :
    Matched R (evalStep s counters step p) (evalStep s counters step p') := by
  cases step with
  | group _ _ | repetition _ _ _ | alternation _ => cases hsimple
  | literal text => exact ⟨rfl, h⟩
  | oneOf chars =>
    rw [evalStep, evalStep, coupled.chooser h]
    exact ⟨rfl, coupled.decided h _⟩
  | backref place =>
    rw [evalStep, evalStep, coupled.captured? h]
    cases p.captured? place with
    | none => exact ⟨rfl, h⟩
    | some text => exact ⟨rfl, h⟩
  | source place modifier construct =>
    rw [evalStep, evalStep]
    exact coupled.source h hP counters
  | numeric value format =>
    rw [evalStep, evalStep]
    cases value.value (s.scope counters) with
    | ok x => exact ⟨rfl, h⟩
    | error fault => exact ⟨rfl, h⟩

mutual

theorem evalStep (coupled : Coupled s rename P R) (counters : List UInt64) {step : Step}
    (hP : P step) {p p' : Progress σ} (h : R p p') :
    Matched R (PatternText.evalStep s counters step p)
      (PatternText.evalStep s counters (step.renumber rename) p') := by
  cases step with
  | literal _ | oneOf _ | backref _ | source _ _ _ | numeric _ _ =>
    exact coupled.simple counters rfl hP h
  | group id body =>
    rw [Step.renumber, PatternText.evalStep, PatternText.evalStep]
    have hbody := coupled.evalSteps counters "" (coupled.passedDown.body hP) (coupled.enter h hP)
    rcases hbody.elim with ⟨text, q, q', he, he', hq⟩ | ⟨fault, q, q', he, he', hq⟩
    · rw [he, he']
      exact ⟨rfl, coupled.complete hq hP text⟩
    · rw [he, he']
      exact ⟨rfl, hq⟩
  | repetition step bounds construct =>
    rw [Step.renumber, PatternText.evalStep, PatternText.evalStep]
    cases s.countRange counters construct bounds with
    | error fault => exact ⟨rfl, h⟩
    | ok r =>
      dsimp only
      rw [coupled.chooser h]
      exact matched_joinLoop
        (fun i q q' hq => coupled.evalStep (i :: counters) (coupled.passedDown.operand hP) hq) _ _ _
        (coupled.decided h _)
  | alternation branches =>
    rw [Step.renumber]
    by_cases hpos : 0 < branches.length
    · have hlength := length_renumberBranches rename branches
      rw [evalStep_alternation s rfl hpos, evalStep_alternation s hlength hpos, coupled.chooser h]
      exact coupled.evalBranch counters _ (coupled.passedDown.branches hP) (coupled.decided h _)
    · have hnil : branches = [] := List.length_eq_zero_iff.1 (Nat.eq_zero_of_not_pos hpos)
      subst hnil
      exact ⟨rfl, h⟩

theorem evalSteps (coupled : Coupled s rename P R) (counters : List UInt64) (acc : String)
    {steps : List Step} (hP : ∀ step ∈ steps, P step) {p p' : Progress σ} (h : R p p') :
    Matched R (PatternText.evalSteps s counters acc steps p)
      (PatternText.evalSteps s counters acc (renumberSteps rename steps) p') := by
  cases steps with
  | nil => exact ⟨rfl, h⟩
  | cons step steps =>
    obtain ⟨hstep, hsteps⟩ := List.forall_mem_cons.1 hP
    rw [renumberSteps, PatternText.evalSteps, PatternText.evalSteps]
    rcases (coupled.evalStep counters hstep h).elim with
      ⟨text, q, q', he, he', hq⟩ | ⟨fault, q, q', he, he', hq⟩
    · rw [he, he']
      exact coupled.evalSteps counters (acc ++ text) hsteps hq
    · rw [he, he']
      exact ⟨rfl, hq⟩

theorem evalBranch (coupled : Coupled s rename P R) (counters : List UInt64)
    {branches : List (List Step)} (i : Nat) (hP : ∀ branch ∈ branches, ∀ step ∈ branch, P step)
    {p p' : Progress σ} (h : R p p') :
    Matched R (PatternText.evalBranch s counters branches i p)
      (PatternText.evalBranch s counters (renumberBranches rename branches) i p') := by
  cases branches with
  | nil => exact ⟨rfl, h⟩
  | cons branch branches =>
    obtain ⟨hbranch, hbranches⟩ := List.forall_mem_cons.1 hP
    cases i with
    | zero => exact coupled.evalSteps counters "" hbranch h
    | succ i => exact coupled.evalBranch counters i hbranches h

end

/-- Two generators in the same setting, the program of the second one with its groups under other numbers,
have the same result and leave progress that is related, if they begin at such progress. -/
theorem generate {g g' : Generator σ} (coupled : Coupled g.setting rename P R)
    (hP : ∀ step ∈ g.program.steps, P step)
    (hsteps : g'.program.steps = renumberSteps rename g.program.steps)
    (hsetting : g'.setting = g.setting)
    (h : R ⟨g.chooser, #[], g.firstGroups⟩ ⟨g'.chooser, #[], g'.firstGroups⟩) :
    ∃ result q q', R q q' ∧
      g.generate = (result, { g with chooser := q.chooser, firstGroups := q.firstGroups }) ∧
      g'.generate = (result, { g' with chooser := q'.chooser, firstGroups := q'.firstGroups }) := by
  have hmatched := coupled.evalSteps [] "" hP h
  rw [← hsteps] at hmatched
  have hindex : g'.rangeIndex = g.rangeIndex := congrArg Setting.rangeIndex hsetting
  obtain ⟨text, q, q', he, he', hq⟩ | ⟨fault, q, q', he, he', hq⟩ := hmatched.elim
  · rw [← hsetting] at he'
    exact ⟨.ok text, q, q', hq, g.generate_of_evalSteps he, g'.generate_of_evalSteps he'⟩
  · rw [← hsetting] at he'
    refine ⟨.error ⟨g.rangeIndex, fault⟩, q, q', hq, g.generate_of_evalSteps he, ?_⟩
    rw [g'.generate_of_evalSteps he', ← hindex]
    rfl

end Coupled

end PatternText
