import PatternText.Proofs.Generation.FirstRange
import PatternText.Proofs.Generation.SideBySide
import PatternText.Proofs.Guarded.Session
import PatternText.Proofs.Operation.Isolation
import PatternText.Proofs.Program.Escaping

/-! Programs that never look back. If no source reference of a program has a modifier, what a generator
remembers of a first range is neither read nor written. Then two generators of the program that are in the
same range and at the same place of the same random source cannot be told apart, whatever became of the
ranges before: not by a generation, a failed one no less, and not by any actions after it. -/

namespace PatternText

/-- Whether the step is a source reference that looks at the first range. -/
def Step.looksBack : Step → Bool
  | .source _ modifier _ => modifier.isSome
  | .literal _ | .oneOf _ | .group _ _ | .backref _ | .repetition _ _ _ | .numeric _ _
  | .alternation _ => false

/-- No source reference anywhere in the program has a modifier. -/
def Program.NeverLooksBack (p : Program) : Prop :=
  ∀ step ∈ p.steps, step.Throughout fun step => step.looksBack = false

theorem Step.passedDown_throughout (P : Step → Prop) : Step.PassedDown (Throughout P) where
  body h := (hereditary_throughout P).group.1 h
  operand h := (hereditary_throughout P).operand h
  branches h := (hereditary_throughout P).alternation.1 h

variable {σ : Type}

/-- The same but for what is remembered of a first range, and that is what it was at the beginning. -/
structure Apart (first first' : Option (Array (Option String))) (p p' : Progress σ) : Prop where
  chooser : p'.chooser = p.chooser
  captures : p'.captures = p.captures
  firstGroups : p.firstGroups = first
  firstGroups' : p'.firstGroups = first'

namespace Apart

variable {first first' : Option (Array (Option String))} {p p' : Progress σ}

theorem enter (h : Apart first first' p p') (id : Nat) : Apart first first' (p.enter id) (p'.enter id) := by
  rw [Progress.enter, Progress.enter, h.captures]
  split
  · exact h
  · exact ⟨h.chooser, rfl, h.firstGroups, h.firstGroups'⟩

theorem complete (h : Apart first first' p p') (id : Nat) (text : String) :
    Apart first first' (p.complete id text) (p'.complete id text) :=
  ⟨h.chooser, captures_complete_congr h.captures id text, h.firstGroups, h.firstGroups'⟩

/-- Without a modifier the group is one of the current range. -/
theorem sourceText (h : Apart first first' p p') (s : Setting) (counters : List UInt64)
    (place : Expression) (construct : String) :
    Matched (Apart first first') (s.sourceText counters place none construct p)
      (s.sourceText counters place none construct p') := by
  rw [sourceText_none, sourceText_none]
  exact ⟨rfl, h⟩

theorem coupled [Chooser σ] (s : Setting) (first first' : Option (Array (Option String))) :
    Coupled (σ := σ) s id (Step.Throughout fun step => step.looksBack = false) (Apart first first') where
  passedDown := Step.passedDown_throughout _
  chooser h := h.chooser
  decided h _ := ⟨rfl, h.captures, h.firstGroups, h.firstGroups'⟩
  enter h id _ _ := h.enter id
  complete h id _ _ := h.complete id
  captured? h := captured?_congr h.captures
  source := by
    intro p p' h place modifier construct hP counters
    cases hP with
    | simple _ hplain =>
      obtain rfl : modifier = none := Option.not_isSome_iff_eq_none.1 (Bool.eq_false_iff.1 hplain)
      exact h.sourceText s counters place construct

end Apart

namespace Generator

/-- The generators differ in no more than what they remember of a first range. -/
structure Alike (g g' : Generator σ) : Prop where
  program : g'.program = g.program
  upperBound : g'.upperBound = g.upperBound
  chooser : g'.chooser = g.chooser
  rangeIndex : g'.rangeIndex = g.rangeIndex
  sourceGroups : g'.sourceGroups = g.sourceGroups

theorem Alike.refl (g : Generator σ) : Alike g g := ⟨rfl, rfl, rfl, rfl, rfl⟩

theorem Alike.setting {g g' : Generator σ} (h : Alike g g') : g'.setting = g.setting := by
  rw [Generator.setting, Generator.setting, h.upperBound, h.rangeIndex, h.sourceGroups]

/-- A generation answers alike, leaves the generators alike, and leaves what each of them remembers. -/
theorem Alike.generate [Chooser σ] {g g' : Generator σ} (h : Alike g g')
    (hnever : g.program.NeverLooksBack) :
    g'.generate.1 = g.generate.1 ∧ Alike g.generate.2 g'.generate.2 ∧
      g.generate.2.firstGroups = g.firstGroups ∧ g'.generate.2.firstGroups = g'.firstGroups := by
  have hsteps : g'.program.steps = renumberSteps id g.program.steps := by
    rw [renumberSteps_id, h.program]
  obtain ⟨result, q, q', hq, hfirst, hsecond⟩ :=
    (Apart.coupled g.setting g.firstGroups g'.firstGroups).generate hnever hsteps h.setting
      ⟨h.chooser, rfl, rfl, rfl⟩
  rw [hfirst, hsecond]
  exact ⟨rfl, ⟨h.program, h.upperBound, hq.chooser, h.rangeIndex, h.sourceGroups⟩, hq.firstGroups,
    hq.firstGroups'⟩

theorem Alike.reseed [Seeded σ] {g g' : Generator σ} (h : Alike g g') (seed : UInt64) :
    Alike (g.reseed seed) (g'.reseed seed) :=
  ⟨h.program, h.upperBound, rfl, h.rangeIndex, h.sourceGroups⟩

theorem Alike.perform [Chooser σ] [Seeded σ] {g g' : Generator σ} (h : Alike g g')
    (hnever : g.program.NeverLooksBack) (action : Action) :
    (g'.perform action).1 = (g.perform action).1 ∧ Alike (g.perform action).2 (g'.perform action).2 := by
  cases action with
  | generate =>
    obtain ⟨hanswer, halike, -⟩ := h.generate hnever
    exact ⟨congrArg some hanswer, halike⟩
  | setRange index groups => exact ⟨rfl, h.program, h.upperBound, h.chooser, rfl, rfl⟩
  | reseed seed => exact ⟨rfl, h.reseed seed⟩
  | resetFirst => exact ⟨rfl, h.program, h.upperBound, h.chooser, h.rangeIndex, h.sourceGroups⟩

theorem Alike.session [Chooser σ] [Seeded σ] {g g' : Generator σ} (h : Alike g g')
    (hnever : g.program.NeverLooksBack) (actions : List Action) :
    (g'.session actions).1 = (g.session actions).1 ∧
      Alike (g.session actions).2 (g'.session actions).2 := by
  induction actions generalizing g g' with
  | nil => exact ⟨rfl, h⟩
  | cons action actions ih =>
    obtain ⟨hanswer, halike⟩ := h.perform hnever action
    have hnext : (g.perform action).2.program.NeverLooksBack := by
      rw [g.program_perform action]
      exact hnever
    obtain ⟨hanswers, halikes⟩ := ih halike hnext
    exact ⟨List.cons_eq_cons.2 ⟨hanswer, hanswers⟩, halikes⟩

/-- Only a reset makes the generator forget. -/
theorem firstGroups_session_of_neverLooksBack [Chooser σ] [Seeded σ] {g : Generator σ}
    (hnever : g.program.NeverLooksBack) {actions : List Action} (hkept : .resetFirst ∉ actions) :
    (g.session actions).2.firstGroups = g.firstGroups := by
  induction actions generalizing g with
  | nil => rfl
  | cons action actions ih =>
    obtain ⟨hne, hkept⟩ := not_or.1 (mt List.mem_cons.2 hkept)
    have hnext : (g.perform action).2.program.NeverLooksBack := by
      rw [g.program_perform action]
      exact hnever
    refine (ih hnext hkept).trans ?_
    cases action with
    | generate =>
      obtain ⟨-, -, hsame, -⟩ := (Alike.refl g).generate hnever
      exact hsame
    | setRange index groups => rfl
    | reseed seed => exact g.firstGroups_reseed seed
    | resetFirst => exact absurd rfl hne

/-- A program without modifiers lets a generator have no memory but its random source. Two generators of
it that are alike generate the same text or fail with the same error; they are alike after that, and each
remembers of a first range what it did before, whatever that was. The same holds after any actions, the
same ones for both, as long as these make no generator forget; and also after those that do, the
generators are alike. -/
theorem alike_of_neverLooksBack {program : Program} (hnever : program.NeverLooksBack) :
    (∀ (σ : Type) [Chooser σ] (g g' : Generator σ), g.program = program → Alike g g' →
      g'.generate.1 = g.generate.1 ∧ Alike g.generate.2 g'.generate.2 ∧
        g.generate.2.firstGroups = g.firstGroups ∧ g'.generate.2.firstGroups = g'.firstGroups) ∧
    ∀ (σ : Type) [Chooser σ] [Seeded σ] (g g' : Generator σ), g.program = program → Alike g g' →
      ∀ actions : List Action,
        (g'.session actions).1 = (g.session actions).1 ∧
          Alike (g.session actions).2 (g'.session actions).2 ∧
          (.resetFirst ∉ actions → (g.session actions).2.firstGroups = g.firstGroups ∧
            (g'.session actions).2.firstGroups = g'.firstGroups) := by
  refine ⟨fun σ _ g g' hg h => h.generate (hg ▸ hnever), fun σ _ _ g g' hg h actions => ?_⟩
  have hfirst : g.program.NeverLooksBack := hg ▸ hnever
  have hsecond : g'.program.NeverLooksBack := h.program ▸ hfirst
  obtain ⟨hanswers, halike⟩ := h.session hfirst actions
  exact ⟨hanswers, halike, fun hkept => ⟨firstGroups_session_of_neverLooksBack hfirst hkept,
    firstGroups_session_of_neverLooksBack hsecond hkept⟩⟩

/-- Rounds of one letter out of two, and the source text after them. -/
def lettersAndSource : Program :=
  ⟨[.repetition (.group 0 [.alternation [[.literal "a"], [.literal "b"]]]) .oneOrMore "+",
    .source (.ofText "0") none "{{0}}"], 1⟩

/-- The generations that fail for want of the source text are the same ones too. -/
theorem lettersAndSource_alike :
    let g : Generator WordSource :=
      { Generator.ofProgram (.ofSettings {}) lettersAndSource 3 with sourceGroups := #[some "x"] }
    let g' := { g with firstGroups := some #[some "y"] }
    let actions := [.generate, .setRange 1 #[], .generate, .setRange 2 #[some "z"], .generate]
    lettersAndSource.NeverLooksBack ∧ g.program = lettersAndSource ∧ Alike g g' ∧
      .resetFirst ∉ actions ∧
      (g.session actions).1.map (·.map Except.toOption) =
        [some (some "baax"), none, some none, none, some (some "bz")] ∧
      g'.generate.1 = g.generate.1 ∧ (g'.session actions).1 = (g.session actions).1 ∧
      (g.session actions).2.firstGroups = none ∧
      (g'.session actions).2.firstGroups = some #[some "y"] := by
  intro g g' actions
  have hletter (text : String) : (Step.literal text).Throughout fun step => step.looksBack = false :=
    .simple rfl rfl
  have hnever : lettersAndSource.NeverLooksBack := by
    refine List.forall_mem_cons.2 ⟨.repetition (.group (List.forall_mem_singleton.2 (.alternation ?_))),
      List.forall_mem_singleton.2 (.simple rfl rfl)⟩
    simp [hletter]
  have halike : Alike g g' := ⟨rfl, rfl, rfl, rfl, rfl⟩
  have hkept : .resetFirst ∉ actions := by
    intro hmem
    simp [actions] at hmem
  have hforgets := alike_of_neverLooksBack hnever
  have hsession := hforgets.2 WordSource g g' rfl halike actions
  exact ⟨hnever, rfl, halike, hkept, by decide +kernel, (hforgets.1 WordSource g g' rfl halike).1,
    hsession.1, (hsession.2.2 hkept).1, (hsession.2.2 hkept).2⟩

end Generator

end PatternText
