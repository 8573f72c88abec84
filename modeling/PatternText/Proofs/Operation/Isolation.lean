import PatternText.Proofs.Generation.Language
import PatternText.Proofs.Generation.SideBySide
import PatternText.Proofs.Operation.Ranges

/-! Ranges of one operation do not touch one another. Every range has one outcome, at its place and
under its index. A program is settled if it draws no characters, chooses between no branches, repeats
exact numbers of times and does not look back at the first range. Two evaluations of a settled step on
the same range agree in what they yield and in what they capture, whatever their sources of decisions
answer; so what becomes of a range depends on its index and its original alone. -/

namespace PatternText

variable {σ τ : Type}

def Bounds.isExact : Bounds → Bool
  | .exactly _ => true
  | .zeroOrMore | .zeroOrOne | .oneOrMore | .atLeast _ | .between _ _ => false

mutual

/-- Whether nothing in the step hangs on a decision or on the first range. -/
def Step.isSettled : Step → Bool
  | .literal _ | .backref _ | .numeric _ _ => true
  | .source _ modifier _ => modifier.isNone
  | .group _ body => stepsSettled body
  | .repetition step bounds _ => bounds.isExact && step.isSettled
  | .oneOf _ | .alternation _ => false

def stepsSettled : List Step → Bool
  | [] => true
  | step :: steps => step.isSettled && stepsSettled steps

end

/-- Whether nothing in the program hangs on a decision or on the first range. -/
def Program.isSettled (p : Program) : Bool := stepsSettled p.steps

/-- The evaluations have the same result and leave the same captures. -/
abbrev Agree (e : Evaluation σ) (e' : Evaluation τ) : Prop :=
  Matched (fun p p' => p.captures = p'.captures) e e'

theorem captures_enter_congr {p : Progress σ} {p' : Progress τ} (h : p.captures = p'.captures)
    (id : Nat) : (p.enter id).captures = (p'.enter id).captures := by
  rw [Progress.enter, Progress.enter, h]
  split
  · exact h
  · rfl

theorem captures_complete_congr {p : Progress σ} {p' : Progress τ} (h : p.captures = p'.captures)
    (id : Nat) (text : String) : (p.complete id text).captures = (p'.complete id text).captures := by
  rw [Progress.complete, Progress.complete, h]

theorem captured?_congr {p : Progress σ} {p' : Progress τ} (h : p.captures = p'.captures)
    (place : UInt64) : p.captured? place = p'.captured? place := by
  rw [Progress.captured?, Progress.captured?, h]

/-- A source reference without a modifier yields a group of the current range and leaves nothing. -/
theorem sourceText_none (s : Setting) (counters : List UInt64) (place : Expression)
    (construct : String) (p : Progress σ) :
    s.sourceText counters place none construct p =
      (match place.value (s.scope counters) with
        | .error fault => .error fault
        | .ok x =>
          match groupAt? s.sourceGroups (indexValue? x) with
          | none => .error (.unknownSourceGroup construct (plainText x))
          | some current => .ok current, p) := by
  rw [Setting.sourceText]
  cases place.value (s.scope counters) with
  | error fault => rfl
  | ok x =>
    dsimp only
    cases groupAt? s.sourceGroups (indexValue? x) with
    | none => rfl
    | some current => rfl

/-- An exact repetition leaves a single count to decide on. -/
theorem countRange_exact (s : Setting) (upperBound : UInt64) (counters : List UInt64)
    {bounds : Bounds} (h : bounds.isExact = true) (construct : String) :
    Setting.countRange { s with upperBound } counters construct bounds =
        s.countRange counters construct bounds ∧
      ∀ r, s.countRange counters construct bounds = .ok r → r.lo = r.hi := by
  cases bounds with
  | zeroOrMore | zeroOrOne | oneOrMore | atLeast _ | between _ _ => cases h
  | exactly n =>
    refine ⟨rfl, fun r hr => ?_⟩
    rw [Setting.countRange] at hr
    split at hr
    · cases hr
    · cases hr
      rfl

/-- The only count of a closed interval with equal ends is that end. -/
theorem count_eq_of_eq [Chooser σ] {lo hi : UInt64} (le : lo ≤ hi) (h : lo = hi) (chooser : σ) :
    (Chooser.count lo hi le chooser).1.val = lo := by
  subst h
  obtain ⟨hlo, hhi⟩ := (Chooser.count lo lo le chooser).1.property
  exact UInt64.le_antisymm hhi hlo

section TwoRuns

-- the two runs may differ in their decisions, in what stands for "without limit", and in what is
-- remembered of the first range
variable [Chooser σ] [Chooser τ] (s : Setting) (upperBound : UInt64)

mutual

theorem agree_evalStep (counters : List UInt64) (step : Step) (hstep : step.isSettled = true)
    {p : Progress σ} {p' : Progress τ} (h : p.captures = p'.captures) :
    Agree (evalStep s counters step p) (evalStep { s with upperBound } counters step p') := by
  cases step with
  | oneOf _ | alternation _ => cases hstep
  | literal text => exact ⟨rfl, h⟩
  | backref place =>
    rw [evalStep, evalStep, captured?_congr h]
    cases p'.captured? place with
    | none => exact ⟨rfl, h⟩
    | some text => exact ⟨rfl, h⟩
  | numeric value format =>
    rw [evalStep, evalStep]
    show Agree (match value.value (s.scope counters) with
      | .ok x => (.ok (format.apply x), p)
      | .error fault => (.error fault, p)) (match value.value (s.scope counters) with
      | .ok x => (.ok (format.apply x), p')
      | .error fault => (.error fault, p'))
    cases value.value (s.scope counters) with
    | ok x => exact ⟨rfl, h⟩
    | error fault => exact ⟨rfl, h⟩
  | source place modifier construct =>
    obtain rfl : modifier = none := Option.isNone_iff_eq_none.1 hstep
    rw [evalStep, evalStep, sourceText_none, sourceText_none]
    exact ⟨rfl, h⟩
  | group id body =>
    rw [evalStep, evalStep]
    have hbody := agree_evalSteps counters "" body hstep (captures_enter_congr h id)
    rcases hbody.elim with ⟨text, q, q', he, he', hq⟩ | ⟨fault, q, q', he, he', hq⟩
    · rw [he, he']
      exact ⟨rfl, captures_complete_congr hq id text⟩
    · rw [he, he']
      exact ⟨rfl, hq⟩
  | repetition step bounds construct =>
    obtain ⟨hbounds, hstep⟩ := (Bool.and_eq_true _ _).mp hstep
    obtain ⟨hrange, hsingle⟩ := countRange_exact s upperBound counters hbounds construct
    rw [evalStep, evalStep, hrange]
    cases hr : s.countRange counters construct bounds with
    | error fault => exact ⟨rfl, h⟩
    | ok r =>
      have hcount : (Chooser.count r.lo r.hi r.le p.chooser).1.val =
          (Chooser.count r.lo r.hi r.le p'.chooser).1.val := by
        rw [count_eq_of_eq r.le (hsingle r hr), count_eq_of_eq r.le (hsingle r hr)]
      dsimp only
      rw [hcount]
      exact matched_joinLoop (fun i q q' hq => agree_evalStep (i :: counters) step hstep hq) _ _ _ h

theorem agree_evalSteps (counters : List UInt64) (acc : String) (steps : List Step)
    (hsteps : stepsSettled steps = true) {p : Progress σ} {p' : Progress τ}
    (h : p.captures = p'.captures) :
    Agree (evalSteps s counters acc steps p)
      (evalSteps { s with upperBound } counters acc steps p') := by
  cases steps with
  | nil => exact ⟨rfl, h⟩
  | cons step steps =>
    obtain ⟨hstep, hsteps⟩ := (Bool.and_eq_true _ _).mp hsteps
    rw [evalSteps, evalSteps]
    rcases (agree_evalStep counters step hstep h).elim with
      ⟨text, q, q', he, he', hq⟩ | ⟨fault, q, q', he, he', hq⟩
    · rw [he, he']
      exact agree_evalSteps counters (acc ++ text) steps hsteps hq
    · rw [he, he']
      exact ⟨rfl, hq⟩

end

end TwoRuns

namespace Generator

/-- What a program yields on one range, where decisions do not matter. -/
def settledResult (program : Program) (groupsOf : String → Array (Option String)) (index : UInt64)
    (original : String) : Except GenerationError String :=
  let g : Generator Script :=
    { program, upperBound := 0, chooser := ⟨[]⟩, rangeIndex := index, sourceGroups := groupsOf original }
  g.generate.1

/-- Generation from a settled program sees its program, its range and nothing else. -/
theorem generate_eq_settledResult [Chooser σ] (g : Generator σ) (hsettled : g.program.isSettled = true)
    (groupsOf : String → Array (Option String)) (index : UInt64) (original : String) :
    ((g.setRange index (groupsOf original)).generate).1 =
      settledResult g.program groupsOf index original := by
  have hstart : (⟨g.chooser, #[], g.firstGroups⟩ : Progress σ).captures =
      (⟨⟨[]⟩, #[], none⟩ : Progress Script).captures := rfl
  have hagree := agree_evalSteps (g.setRange index (groupsOf original)).setting 0 [] ""
    g.program.steps hsettled hstart
  exact congrArg (Except.mapError fun fault => GenerationError.mk index fault) hagree.result

/-- An operation has one outcome for each range, under the index of the range, and a fault is reported
with that index. Where the program is settled, the outcome of a range is a function of its index and its
original: neither the other originals nor the random source nor anything before matter. -/
theorem run_isolated (program : Program) (groupsOf : String → Array (Option String)) :
    (∀ (σ : Type) [Chooser σ] (g : Generator σ) (originals : List String),
      (g.run groupsOf originals).1.length = originals.length ∧
      ∀ (k : Nat) (o : RangeOutcome), (g.run groupsOf originals).1[k]? = some o →
        o.index = UInt64.ofNat k ∧ ∀ e, o.result = .error e → e.rangeIndex = UInt64.ofNat k) ∧
    (program.isSettled = true →
      ∃ resultOf : UInt64 → String → Except GenerationError String,
        ∀ (σ : Type) [Chooser σ] (g : Generator σ) (originals : List String), g.program = program →
          ∀ (k : Nat) (original : String), originals[k]? = some original →
            (g.run groupsOf originals).1[k]? =
              some ⟨UInt64.ofNat k, resultOf (UInt64.ofNat k) original⟩) := by
  constructor
  · intro σ _ g originals
    refine ⟨length_run groupsOf g originals, fun k o ho => ?_⟩
    have hlt : k < originals.length := by
      rw [← length_run groupsOf g originals]
      exact (List.getElem?_eq_some_iff.1 ho).1
    rw [getElem?_run groupsOf g (List.getElem?_eq_getElem hlt)] at ho
    cases ho
    exact ⟨rfl, fun e he => rangeIndex_of_generate_eq_error he⟩
  · intro hsettled
    refine ⟨settledResult program groupsOf, fun σ _ g originals hprogram k original hk => ?_⟩
    have hat : (g.resetFirst.afterRanges groupsOf 0 (originals.take k)).program = program := by
      rw [program_afterRanges]
      exact hprogram
    rw [getElem?_run groupsOf g hk, atRange, generate_eq_settledResult _ (hat ▸ hsettled), hat]

/-- A group that is repeated as often as the source has groups, and the first of these groups. -/
def countedRounds : Program :=
  ⟨[.repetition (.group 0 [.literal "a", .numeric (.ofText "i+1") {}]) (.exactly (.ofText "N"))
      "{N}", .source (.ofText "1") none "{{1}}"], 1⟩

/-- Two groups for every text but `x`, which has none. -/
def twoGroupsUnlessX (original : String) : Array (Option String) :=
  if original = "x" then #[] else #[some original, some original]

/-- The range in the middle is the same beside ranges that fail or not, under another seed. -/
theorem countedRounds_isolated :
    countedRounds.isSettled = true ∧
    ∃ resultOf : UInt64 → String → Except GenerationError String,
      (Generator.run twoGroupsUnlessX ["x", "b", "x"]
        (Generator.ofProgram (Config.ofSettings {}) countedRounds 1)).1[1]? =
          some ⟨1, resultOf 1 "b"⟩ ∧
      (Generator.run twoGroupsUnlessX ["c", "b"]
        (Generator.ofProgram (Config.ofSettings {}) countedRounds 2)).1[1]? =
          some ⟨1, resultOf 1 "b"⟩ ∧
      (resultOf 1 "b").toOption = some "a1a2b" := by
  have hsettled : countedRounds.isSettled = true := by decide
  obtain ⟨resultOf, hresult⟩ := (run_isolated countedRounds twoGroupsUnlessX).2 hsettled
  have hfirst := hresult WordSource (.ofProgram (Config.ofSettings {}) countedRounds 1) ["x", "b", "x"]
    rfl 1 "b" rfl
  refine ⟨hsettled, resultOf, hfirst, ?_, ?_⟩
  · exact hresult WordSource (.ofProgram (Config.ofSettings {}) countedRounds 2) ["c", "b"] rfl 1 "b" rfl
  · have htext : ((Generator.run twoGroupsUnlessX ["x", "b", "x"]
        (Generator.ofProgram (Config.ofSettings {}) countedRounds 1)).1[1]?).map (·.result.toOption) =
        some (some "a1a2b") := by decide +kernel
    rw [hfirst] at htext
    exact Option.some.inj htext

end Generator

end PatternText
