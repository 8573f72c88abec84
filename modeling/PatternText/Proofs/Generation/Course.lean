import PatternText.Generation.Generator
import PatternText.Proofs.Program.Making

/-! Evaluations in their course. Here the loop counters lie on one stack that the whole evaluation
shares: a loop puts a counter on top of it, sets that to the index of each round, and takes it off after
the last one. What happens to groups is written down, and so is every moment at which something can be
seen: before a step, and after a group was entered or completed. Results and progress are those of the
evaluation that passes the counters down, and the stack is left as it was found. A property that every
single change keeps holds at all moments. -/

namespace PatternText

/-- What happens to a group. -/
inductive GroupEvent where
  | entered (id : Nat)
  /-- The body of the group yielded this text. -/
  | completed (id : Nat) (text : String)

/-- What is open around a place of a program. -/
structure Around where
  /-- The indexes of the rounds in which the loops around are, the innermost first. -/
  rounds : List UInt64 := []
  /-- The groups around, the innermost first. -/
  groups : List Nat := []

/-- What can be seen of an evaluation at one time. -/
structure Moment (σ : Type) where
  around : Around
  /-- The step that is evaluated next; none right after a group was entered or completed. -/
  next : Option Step
  progress : Progress σ
  counters : List UInt64
  events : List GroupEvent

/-- An evaluation up to some time. -/
structure Course (σ : Type) where
  progress : Progress σ
  /-- The stack of loop counters, its top first. -/
  counters : List UInt64 := []
  /-- What happened to groups, the latest first. -/
  events : List GroupEvent := []
  /-- The moments so far, the latest first. -/
  moments : List (Moment σ) := []

/-- A result, and the course of the evaluation up to it. -/
abbrev Run (σ : Type) := Except Fault String × Course σ

namespace Around

def inRound (a : Around) (i : UInt64) : Around := { a with rounds := i :: a.rounds }

def inGroup (a : Around) (id : Nat) : Around := { a with groups := id :: a.groups }

end Around

namespace Course

variable {σ : Type}

/-- This moment is written down. -/
def note (c : Course σ) (around : Around) (next : Option Step) : Course σ :=
  { c with moments := ⟨around, next, c.progress, c.counters, c.events⟩ :: c.moments }

/-- Decisions were taken, or the first range was remembered. -/
def settle (c : Course σ) (chooser : σ) (firstGroups : Option (Array (Option String))) : Course σ :=
  { c with progress := { c.progress with chooser, firstGroups } }

def enter (c : Course σ) (id : Nat) : Course σ :=
  { c with progress := c.progress.enter id, events := .entered id :: c.events }

def complete (c : Course σ) (id : Nat) (text : String) : Course σ :=
  { c with progress := c.progress.complete id text, events := .completed id text :: c.events }

def push (c : Course σ) : Course σ := { c with counters := 0 :: c.counters }

/-- The counter on top of the stack becomes `i`. -/
def setTop (c : Course σ) (i : UInt64) : Course σ :=
  match c.counters with
  | [] => c
  | _ :: outer => { c with counters := i :: outer }

def pop (c : Course σ) : Course σ := { c with counters := c.counters.tail }

end Course

variable {σ : Type}

/-- The joined texts of `count` more rounds of a loop from the index `i` on, after those before. -/
def runLoop (body : UInt64 → Course σ → Run σ) (acc : String) (i : UInt64) : Nat → Course σ → Run σ
  | 0, c => (.ok acc, c)
  | count + 1, c =>
    match body i (c.setTop i) with
    | (.ok text, c) => runLoop body (acc ++ text) (i + 1) count c
    | (.error fault, c) => (.error fault, c)

mutual

/-- The run of a step. One without steps inside finds the counters on the stack. Where the step stands
is told for the record only. -/
def runStep [Chooser σ] (s : Setting) (around : Around) (step : Step) (c : Course σ) : Run σ :=
  let c := c.note around (some step)
  match step with
  | .group id body =>
    match runSteps s (around.inGroup id) "" body ((c.enter id).note (around.inGroup id) none) with
    | (.ok text, c) => (.ok text, (c.complete id text).note around none)
    | (.error fault, c) => (.error fault, c)
  | .repetition step bounds construct =>
    match s.countRange c.counters construct bounds with
    | .error fault => (.error fault, c)
    | .ok r =>
      let (count, chooser) := Chooser.count r.lo r.hi r.le c.progress.chooser
      let c := (c.settle chooser c.progress.firstGroups).push
      match runLoop (fun i => runStep s (around.inRound i) step) "" 0 count.val.toNat c with
      | (.ok text, c) => (.ok text, c.pop)
      | (.error fault, c) => (.error fault, c)
  | .alternation branches =>
    if h : 0 < branches.length then
      let (i, chooser) := Chooser.index branches.length h c.progress.chooser
      runBranch s around branches i (c.settle chooser c.progress.firstGroups)
    else (.ok "", c)
  | step =>
    let (result, p) := evalStep s c.counters step c.progress
    (result, c.settle p.chooser p.firstGroups)

/-- The run of a row of steps, after the text before. -/
def runSteps [Chooser σ] (s : Setting) (around : Around) (acc : String) :
    List Step → Course σ → Run σ
  | [], c => (.ok acc, c)
  | step :: steps, c =>
    match runStep s around step c with
    | (.ok text, c) => runSteps s around (acc ++ text) steps c
    | (.error fault, c) => (.error fault, c)

/-- The run of the branch at a place. -/
def runBranch [Chooser σ] (s : Setting) (around : Around) :
    List (List Step) → Nat → Course σ → Run σ
  | [], _, c => (.ok "", c)
  | branch :: _, 0, c => runSteps s around "" branch c
  | _ :: branches, i + 1, c => runBranch s around branches i c

end

/-! ### Results -/

/-- The run ends as the evaluation does; after a text the stack is this one. -/
inductive Ends (counters : List UInt64) : Run σ → Evaluation σ → Prop where
  | ok {text : String} {c : Course σ} (restored : c.counters = counters) :
      Ends counters (.ok text, c) (.ok text, c.progress)
  | error {fault : Fault} {c : Course σ} : Ends counters (.error fault, c) (.error fault, c.progress)

theorem Ends.elim {counters : List UInt64} {run : Run σ} {eval : Evaluation σ}
    (h : Ends counters run eval) :
    (∃ text c, run = (.ok text, c) ∧ eval = (.ok text, c.progress) ∧ c.counters = counters) ∨
      ∃ fault c, run = (.error fault, c) ∧ eval = (.error fault, c.progress) := by
  cases h with
  | ok restored => exact .inl ⟨_, _, rfl, rfl, restored⟩
  | error => exact .inr ⟨_, _, rfl, rfl⟩

theorem Ends.eq {counters : List UInt64} {run : Run σ} {eval : Evaluation σ}
    (h : Ends counters run eval) : (run.1, run.2.progress) = eval := by
  cases h with
  | ok => rfl
  | error => rfl

theorem Ends.counters_eq {counters : List UInt64} {run : Run σ} {eval : Evaluation σ}
    (h : Ends counters run eval) {text : String} (htext : run.1 = .ok text) :
    run.2.counters = counters := by
  cases h with
  | ok restored => exact restored
  | error => cases htext

theorem runLoop_ends {counters : List UInt64} {body : UInt64 → Course σ → Run σ}
    {eval : UInt64 → Progress σ → Evaluation σ}
    (hbody : ∀ i c, c.counters = i :: counters → Ends (i :: counters) (body i c) (eval i c.progress))
    (count : Nat) (acc : String) (i : UInt64) {top : UInt64} {c : Course σ}
    (hc : c.counters = top :: counters) :
    Ends counters
      (match runLoop body acc i count c with
        | (.ok text, c) => (.ok text, c.pop)
        | (.error fault, c) => (.error fault, c))
      (joinLoop eval acc i count c.progress) := by
  induction count generalizing acc i top c with
  | zero =>
    rw [runLoop, joinLoop]
    exact .ok (by rw [Course.pop, hc, List.tail_cons])
  | succ count ih =>
    have hset : (c.setTop i).counters = i :: counters ∧ (c.setTop i).progress = c.progress := by
      rw [Course.setTop, hc]
      exact ⟨rfl, rfl⟩
    rw [runLoop, joinLoop, ← hset.2]
    rcases (hbody i (c.setTop i) hset.1).elim with ⟨text, c', hrun, heval, hc'⟩ | ⟨fault, c', hrun, heval⟩
    · rw [hrun, heval]
      exact ih (acc ++ text) (i + 1) hc'
    · rw [hrun, heval]
      exact .error

/-- A simple step leaves the captured groups as they are. -/
theorem captures_evalStep [Chooser σ] (s : Setting) (counters : List UInt64) {step : Step}
    (h : step.isSimple = true) (p : Progress σ) :
    (evalStep s counters step p).2.captures = p.captures := by
  cases step with
  | group _ _ | repetition _ _ _ | alternation _ => cases h
  | literal text | oneOf chars => rfl
  | backref place | numeric value format =>
    rw [evalStep]
    split <;> rfl
  | source place modifier construct =>
    have hremember : (s.rememberFirst p).captures = p.captures := by
      rw [Setting.rememberFirst]
      split <;> rfl
    rw [evalStep, Setting.sourceText]
    split
    · rfl
    · -- the progress is the same whichever text is taken
      have hsettled : (if modifier.isSome then s.rememberFirst p else p).captures = p.captures := by
        split
        · exact hremember
        · rfl
      dsimp only
      split
      · exact hsettled
      · split <;> exact hsettled

theorem runStep_eq_of_isSimple [Chooser σ] (s : Setting) (around : Around) {step : Step}
    (h : step.isSimple = true) (c : Course σ) :
    runStep s around step c =
      ((evalStep s c.counters step c.progress).1,
        (c.note around (some step)).settle (evalStep s c.counters step c.progress).2.chooser
          (evalStep s c.counters step c.progress).2.firstGroups) := by
  cases step with
  | group _ _ | repetition _ _ _ | alternation _ => cases h
  | literal _ | oneOf _ | backref _ | source _ _ _ | numeric _ _ => rfl

theorem runStep_ends_of_isSimple [Chooser σ] (s : Setting) (around : Around) {step : Step}
    (h : step.isSimple = true) (c : Course σ) :
    Ends c.counters (runStep s around step c) (evalStep s c.counters step c.progress) := by
  have hcaptures := captures_evalStep s c.counters h c.progress
  rw [runStep_eq_of_isSimple s around h]
  generalize evalStep s c.counters step c.progress = eval at hcaptures ⊢
  obtain ⟨result, p⟩ := eval
  have hp : ((c.note around (some step)).settle p.chooser p.firstGroups).progress = p := by
    change Progress.mk p.chooser c.progress.captures p.firstGroups = p
    rw [← hcaptures]
  cases result with
  | ok text =>
    have hend : Ends c.counters (.ok text, (c.note around (some step)).settle p.chooser p.firstGroups)
        _ := .ok rfl
    rwa [hp] at hend
  | error fault =>
    have hend : Ends c.counters
        (.error fault, (c.note around (some step)).settle p.chooser p.firstGroups) _ := .error
    rwa [hp] at hend

mutual

theorem runStep_ends [Chooser σ] (s : Setting) (around : Around) (step : Step) (c : Course σ) :
    Ends c.counters (runStep s around step c) (evalStep s c.counters step c.progress) := by
  cases step with
  | group id body =>
    rw [runStep, evalStep]
    have hbody := runSteps_ends s (around.inGroup id) "" body
      (((c.note around (some (.group id body))).enter id).note (around.inGroup id) none)
    change Ends c.counters _ (evalSteps s c.counters "" body (c.progress.enter id)) at hbody
    rcases hbody.elim with ⟨text, c', hrun, heval, hc'⟩ | ⟨fault, c', hrun, heval⟩
    · rw [hrun, heval]
      exact .ok hc'
    · rw [hrun, heval]
      exact .error
  | repetition step bounds construct =>
    rw [runStep, evalStep]
    change Ends c.counters (match s.countRange c.counters construct bounds with
      | .error fault => _
      | .ok r => _) _
    cases s.countRange c.counters construct bounds with
    | error fault => exact .error
    | ok r =>
      refine runLoop_ends (fun i c' hc' => ?_) _ "" 0 rfl
      rw [← hc']
      exact runStep_ends s (around.inRound i) step c'
  | alternation branches =>
    rw [runStep, evalStep]
    dsimp only
    split
    next h =>
      exact runBranch_ends s around branches _ ((c.note around (some (.alternation branches))).settle
        (Chooser.index branches.length h c.progress.chooser).2 c.progress.firstGroups)
    next => exact .ok rfl
  | literal _ | oneOf _ | backref _ | source _ _ _ | numeric _ _ =>
    exact runStep_ends_of_isSimple s around rfl c

theorem runSteps_ends [Chooser σ] (s : Setting) (around : Around) (acc : String) (steps : List Step)
    (c : Course σ) :
    Ends c.counters (runSteps s around acc steps c) (evalSteps s c.counters acc steps c.progress) := by
  cases steps with
  | nil => exact .ok rfl
  | cons step steps =>
    rw [runSteps, evalSteps]
    rcases (runStep_ends s around step c).elim with ⟨text, c', hrun, heval, hc'⟩ | ⟨fault, c', hrun, heval⟩
    · rw [hrun, heval, ← hc']
      exact runSteps_ends s around (acc ++ text) steps c'
    · rw [hrun, heval]
      exact .error

theorem runBranch_ends [Chooser σ] (s : Setting) (around : Around) (branches : List (List Step))
    (i : Nat) (c : Course σ) :
    Ends c.counters (runBranch s around branches i c)
      (evalBranch s c.counters branches i c.progress) := by
  cases branches with
  | nil => exact .ok rfl
  | cons branch branches =>
    cases i with
    | zero => exact runSteps_ends s around "" branch c
    | succ i => exact runBranch_ends s around branches i c

end

/-- The course of a generation. -/
def Generator.generateRun [Chooser σ] (g : Generator σ) : Run σ :=
  runSteps g.setting {} "" g.program.steps
    { progress := { chooser := g.chooser, captures := #[], firstGroups := g.firstGroups } }

theorem Generator.generate_eq_generateRun [Chooser σ] (g : Generator σ) :
    g.generate = (g.generateRun.1.mapError (⟨g.rangeIndex, ·⟩),
      { g with
        chooser := g.generateRun.2.progress.chooser
        firstGroups := g.generateRun.2.progress.firstGroups }) := by
  have hrun : (g.generateRun.1, g.generateRun.2.progress) =
      evalSteps g.setting [] "" g.program.steps ⟨g.chooser, #[], g.firstGroups⟩ :=
    (runSteps_ends g.setting {} "" g.program.steps _).eq
  rw [Generator.generate, ← hrun]

/-! ### Properties that every change keeps -/

/-- The step stands somewhere in the program, and this is open around it. -/
inductive Stands (program : List Step) : Around → Step → Prop where
  | outermost {step : Step} (h : step ∈ program) : Stands program {} step
  | inGroup {around : Around} {id : Nat} {body : List Step} {step : Step}
      (outer : Stands program around (.group id body)) (h : step ∈ body) :
      Stands program (around.inGroup id) step
  | inRound {around : Around} {step : Step} {bounds : Bounds} {construct : String}
      (outer : Stands program around (.repetition step bounds construct)) (i : UInt64) :
      Stands program (around.inRound i) step
  | inBranch {around : Around} {branches : List (List Step)} {branch : List Step} {step : Step}
      (outer : Stands program around (.alternation branches)) (hbranch : branch ∈ branches)
      (h : step ∈ branch) : Stands program around step

/-- The property of a course and what is open around it holds on through every single change. -/
structure Kept (program : List Step) (P : Around → Course σ → Prop) : Prop where
  note {around : Around} {c : Course σ} {next : Option Step}
    (hnext : ∀ step ∈ next, Stands program around step) (h : P around c) : P around (c.note around next)
  settle {around : Around} {c : Course σ} (h : P around c) (chooser : σ)
    (firstGroups : Option (Array (Option String))) : P around (c.settle chooser firstGroups)
  enter {around : Around} {c : Course σ} {id : Nat} {body : List Step}
    (hgroup : Stands program around (.group id body)) (h : P around c) :
    P (around.inGroup id) (c.enter id)
  complete {around : Around} {c : Course σ} {id : Nat} (h : P (around.inGroup id) c) (text : String) :
    P around (c.complete id text)
  push {around : Around} {c : Course σ} (h : P around c) : P (around.inRound 0) c.push
  setTop {around : Around} {c : Course σ} {i : UInt64} (h : P (around.inRound i) c) (j : UInt64) :
    P (around.inRound j) (c.setTop j)
  pop {around : Around} {c : Course σ} {i : UInt64} (h : P (around.inRound i) c) : P around c.pop

/-- The property holds after the run: where it began after a text, deeper inside after a fault. -/
inductive After (P : Around → Course σ → Prop) (around : Around) : Run σ → Prop where
  | ok {text : String} {c : Course σ} (h : P around c) : After P around (.ok text, c)
  | error {fault : Fault} {c : Course σ} (inside : Around) (h : P inside c) :
      After P around (.error fault, c)

theorem After.elim {P : Around → Course σ → Prop} {around : Around} {run : Run σ}
    (h : After P around run) :
    (∃ text c, run = (.ok text, c) ∧ P around c) ∨
      ∃ fault c inside, run = (.error fault, c) ∧ P inside c := by
  cases h with
  | ok h => exact .inl ⟨_, _, rfl, h⟩
  | error inside h => exact .inr ⟨_, _, inside, rfl, h⟩

/-- Whatever the result, the property holds somewhere. -/
theorem After.exists_inside {P : Around → Course σ → Prop} {around : Around} {run : Run σ}
    (h : After P around run) : ∃ inside, P inside run.2 := by
  cases h with
  | ok h => exact ⟨around, h⟩
  | error inside h => exact ⟨inside, h⟩

namespace Kept

variable {program : List Step} {P : Around → Course σ → Prop}

theorem runLoop (kept : Kept program P) {around : Around} {body : UInt64 → Course σ → Run σ}
    (hbody : ∀ i c, P (around.inRound i) c → After P (around.inRound i) (body i c)) (count : Nat)
    (acc : String) (i : UInt64) {top : UInt64} {c : Course σ} (hc : P (around.inRound top) c) :
    After P around
      (match PatternText.runLoop body acc i count c with
        | (.ok text, c) => (.ok text, c.pop)
        | (.error fault, c) => (.error fault, c)) := by
  induction count generalizing acc i top c with
  | zero => exact .ok (kept.pop hc)
  | succ count ih =>
    rw [PatternText.runLoop]
    rcases (hbody i (c.setTop i) (kept.setTop hc i)).elim with
      ⟨text, c', hrun, hc'⟩ | ⟨fault, c', inside, hrun, hc'⟩
    · rw [hrun]
      exact ih (acc ++ text) (i + 1) hc'
    · rw [hrun]
      exact .error inside hc'

theorem runStep_of_isSimple [Chooser σ] (kept : Kept program P) (s : Setting) {around : Around}
    {step : Step} (hsimple : step.isSimple = true) {c : Course σ}
    (h : P around (c.note around (some step))) : After P around (PatternText.runStep s around step c) := by
  rw [runStep_eq_of_isSimple s around hsimple]
  cases evalStep s c.counters step c.progress with
  | mk result p =>
    cases result with
    | ok text => exact .ok (kept.settle h _ _)
    | error fault => exact .error around (kept.settle h _ _)

mutual

theorem runStep [Chooser σ] (kept : Kept program P) (s : Setting) {around : Around} {step : Step}
    (hstep : Stands program around step) {c : Course σ} (h : P around c) :
    After P around (runStep s around step c) := by
  have hnote : P around (c.note around (some step)) :=
    kept.note (fun _ hmem => Option.some.inj hmem ▸ hstep) h
  cases step with
  | group id body =>
    rw [PatternText.runStep]
    have henter : P (around.inGroup id)
        (((c.note around (some (.group id body))).enter id).note (around.inGroup id) none) :=
      kept.note (fun _ hmem => nomatch hmem) (kept.enter hstep hnote)
    rcases (kept.runSteps s (fun _ hmem => .inGroup hstep hmem) "" henter).elim with
      ⟨text, c', hrun, hc'⟩ | ⟨fault, c', inside, hrun, hc'⟩
    · rw [hrun]
      exact .ok (kept.note (fun _ hmem => nomatch hmem) (kept.complete hc' text))
    · rw [hrun]
      exact .error inside hc'
  | repetition step bounds construct =>
    rw [PatternText.runStep]
    dsimp only
    cases s.countRange (c.note around (some (.repetition step bounds construct))).counters construct
        bounds with
    | error fault => exact .error around hnote
    | ok r =>
      exact kept.runLoop (fun i c' hc' => kept.runStep s (.inRound hstep i) hc') _ "" 0
        (kept.push (kept.settle hnote _ _))
  | alternation branches =>
    rw [PatternText.runStep]
    dsimp only
    split
    next =>
      exact kept.runBranch s (fun _ hbranch _ hmem => .inBranch hstep hbranch hmem) _
        (kept.settle hnote _ _)
    next => exact .ok hnote
  | literal _ | oneOf _ | backref _ | source _ _ _ | numeric _ _ =>
    exact kept.runStep_of_isSimple s rfl hnote

theorem runSteps [Chooser σ] (kept : Kept program P) (s : Setting) {around : Around}
    {steps : List Step} (hsteps : ∀ step ∈ steps, Stands program around step) (acc : String)
    {c : Course σ} (h : P around c) : After P around (runSteps s around acc steps c) := by
  cases steps with
  | nil => exact .ok h
  | cons step steps =>
    obtain ⟨hstep, hsteps⟩ := List.forall_mem_cons.1 hsteps
    rw [PatternText.runSteps]
    rcases (kept.runStep s hstep h).elim with ⟨text, c', hrun, hc'⟩ | ⟨fault, c', inside, hrun, hc'⟩
    · rw [hrun]
      exact kept.runSteps s hsteps (acc ++ text) hc'
    · rw [hrun]
      exact .error inside hc'

theorem runBranch [Chooser σ] (kept : Kept program P) (s : Setting) {around : Around}
    {branches : List (List Step)}
    (hbranches : ∀ branch ∈ branches, ∀ step ∈ branch, Stands program around step) (i : Nat)
    {c : Course σ} (h : P around c) : After P around (runBranch s around branches i c) := by
  cases branches with
  | nil => exact .ok h
  | cons branch branches =>
    obtain ⟨hbranch, hbranches⟩ := List.forall_mem_cons.1 hbranches
    cases i with
    | zero => exact kept.runSteps s hbranch "" h
    | succ i => exact kept.runBranch s hbranches i h

end

end Kept

end PatternText
