import PatternText.Proofs.Generation.Course

/-! Looks at the first range. A source reference with a modifier looks at the first range once its place
has a value, and only then the groups of a range are remembered as those of the first. A generation that
looks at it leaves its own groups remembered if it is that of range zero or none were remembered, and
changes nothing otherwise; a fault later on does not undo this. So what is remembered after any sequence
of actions are the groups of the latest look at range zero, else those of the earliest look, of all the
looks since the first range was last forgotten. -/

namespace PatternText

variable {σ : Type}

/-- Whether the step, with this to refer to, looks at the first range. -/
def Step.asksFirst (scope : Scope) : Step → Bool
  | .source place (some _) _ => (place.value scope).toOption.isSome
  | .source _ none _ | .literal _ | .oneOf _ | .group _ _ | .backref _ | .repetition _ _ _
  | .numeric _ _ | .alternation _ => false

/-- Whether the step that is evaluated next looks at the first range. -/
def Moment.asksFirst (s : Setting) (m : Moment σ) : Bool :=
  m.next.any fun step => step.asksFirst (s.scope m.counters)

/-- What is remembered of the first range after a look at it, or after none. -/
def Setting.remembered (s : Setting) (asked : Bool) (first : Option (Array (Option String))) :
    Option (Array (Option String)) :=
  if asked ∧ (s.rangeIndex = 0 ∨ first.isNone) then some s.sourceGroups else first

namespace Setting

variable (s : Setting)

theorem remembered_false (first : Option (Array (Option String))) :
    s.remembered false first = first := by
  simp [remembered]

theorem firstGroups_rememberFirst (p : Progress σ) :
    (s.rememberFirst p).firstGroups = s.remembered true p.firstGroups := by
  unfold rememberFirst remembered
  split <;> simp_all

/-- A second look in the same range changes nothing. -/
theorem remembered_remembered (asked again : Bool) (first : Option (Array (Option String))) :
    s.remembered again (s.remembered asked first) = s.remembered (again || asked) first := by
  unfold remembered
  cases asked <;> cases again <;> by_cases hzero : s.rangeIndex = 0 <;> cases first <;> simp [hzero]

end Setting

/-! ### One generation -/

/-- A simple step remembers the range if it looks at the first one. -/
theorem firstGroups_evalStep [Chooser σ] (s : Setting) (counters : List UInt64) {step : Step}
    (h : step.isSimple = true) (p : Progress σ) :
    (evalStep s counters step p).2.firstGroups =
      s.remembered (step.asksFirst (s.scope counters)) p.firstGroups := by
  cases step with
  | group _ _ | repetition _ _ _ | alternation _ => cases h
  | literal _ | oneOf _ =>
    rw [Step.asksFirst, s.remembered_false]
    rfl
  | backref _ | numeric _ _ =>
    rw [Step.asksFirst, s.remembered_false, evalStep]
    split <;> rfl
  | source place modifier construct =>
    rw [evalStep, Setting.sourceText]
    cases hplace : place.value (s.scope counters) with
    | error fault =>
      cases modifier with
      | none => exact (s.remembered_false _).symm
      | some _ =>
        rw [Step.asksFirst, hplace]
        exact (s.remembered_false _).symm
    | ok x =>
      have hfirst : (if modifier.isSome then s.rememberFirst p else p).firstGroups =
          s.remembered ((Step.source place modifier construct).asksFirst (s.scope counters))
            p.firstGroups := by
        cases modifier with
        | none => exact (s.remembered_false _).symm
        | some _ =>
          rw [Step.asksFirst, hplace]
          exact s.firstGroups_rememberFirst p
      dsimp only
      rw [← hfirst]
      -- whichever text or fault comes out, the look has been taken
      split
      · rfl
      · split <;> rfl

/-- The second course continues the first one; the first range is remembered as the looks at it in
between demand, and at no moment in between it is anything else than before or after. -/
def Remembers (s : Setting) (c c' : Course σ) : Prop :=
  ∃ moments : List (Moment σ), c'.moments = moments ++ c.moments ∧
    c'.progress.firstGroups =
      s.remembered (moments.any (Moment.asksFirst s)) c.progress.firstGroups ∧
    ∀ m ∈ moments, m.progress.firstGroups = c.progress.firstGroups ∨
      m.progress.firstGroups = c'.progress.firstGroups

namespace Remembers

variable {s : Setting} {c c' c'' : Course σ}

theorem of_eq (hmoments : c'.moments = c.moments)
    (hfirst : c'.progress.firstGroups = c.progress.firstGroups) : Remembers s c c' :=
  ⟨[], hmoments, hfirst.trans (s.remembered_false _).symm, nofun⟩

theorem refl (c : Course σ) : Remembers s c c := of_eq rfl rfl

theorem trans (h : Remembers s c c') (h' : Remembers s c' c'') : Remembers s c c'' := by
  obtain ⟨moments, happend, hfirst, hbetween⟩ := h
  obtain ⟨moments', happend', hfirst', hbetween'⟩ := h'
  have hlast : c''.progress.firstGroups =
      s.remembered ((moments' ++ moments).any (Moment.asksFirst s)) c.progress.firstGroups := by
    rw [hfirst', hfirst, s.remembered_remembered, List.any_append]
  -- in the middle nothing has happened yet, or all has
  have hmiddle : c'.progress.firstGroups = c.progress.firstGroups ∨
      c'.progress.firstGroups = c''.progress.firstGroups := by
    cases hasked : moments.any (Moment.asksFirst s) with
    | false =>
      rw [hasked, s.remembered_false] at hfirst
      exact .inl hfirst
    | true =>
      rw [hasked] at hfirst
      right
      rw [hlast, hfirst, List.any_append, hasked, Bool.or_true]
  refine ⟨moments' ++ moments, by rw [happend', happend, List.append_assoc], hlast, ?_⟩
  intro m hm
  rcases List.mem_append.1 hm with hm | hm
  · rcases hbetween' m hm with heq | heq
    · rw [heq]
      exact hmiddle
    · exact .inr heq
  · rcases hbetween m hm with heq | heq
    · exact .inl heq
    · rw [heq]
      exact hmiddle

/-- A moment without a look at the first range is written down. -/
theorem note (around : Around) (next : Option Step)
    (hnext : next.any (fun step => step.asksFirst (s.scope c.counters)) = false) :
    Remembers s c (c.note around next) := by
  refine ⟨[⟨around, next, c.progress, c.counters, c.events⟩], rfl, ?_, ?_⟩
  · rw [List.any_cons, List.any_nil, Bool.or_false, Moment.asksFirst, hnext, s.remembered_false]
    rfl
  · intro m hm
    rw [List.mem_singleton.1 hm]
    exact .inl rfl

theorem settle (c : Course σ) (chooser : σ) :
    Remembers s c (c.settle chooser c.progress.firstGroups) := of_eq rfl rfl

theorem enter (c : Course σ) (id : Nat) : Remembers s c (c.enter id) := by
  refine of_eq rfl ?_
  show (c.progress.enter id).firstGroups = c.progress.firstGroups
  unfold Progress.enter
  split <;> rfl

theorem complete (c : Course σ) (id : Nat) (text : String) : Remembers s c (c.complete id text) :=
  of_eq rfl rfl

theorem push (c : Course σ) : Remembers s c c.push := of_eq rfl rfl

theorem setTop (c : Course σ) (i : UInt64) : Remembers s c (c.setTop i) := by
  unfold Course.setTop
  split
  · exact refl c
  · exact of_eq rfl rfl

theorem pop (c : Course σ) : Remembers s c c.pop := of_eq rfl rfl

end Remembers

section Runs

variable [Chooser σ] (s : Setting)

theorem remembers_runStep_of_isSimple (around : Around) {step : Step} (h : step.isSimple = true)
    (c : Course σ) : Remembers s c (runStep s around step c).2 := by
  rw [runStep_eq_of_isSimple s around h]
  refine ⟨[⟨around, some step, c.progress, c.counters, c.events⟩], rfl, ?_, ?_⟩
  · have hasked : [(⟨around, some step, c.progress, c.counters, c.events⟩ : Moment σ)].any
        (Moment.asksFirst s) = step.asksFirst (s.scope c.counters) := by
      simp [Moment.asksFirst]
    rw [hasked]
    exact firstGroups_evalStep s c.counters h c.progress
  · intro m hm
    rw [List.mem_singleton.1 hm]
    exact .inl rfl

omit [Chooser σ] in
theorem remembers_runLoop {body : UInt64 → Course σ → Run σ}
    (hbody : ∀ i c, Remembers s c (body i c).2) (acc : String) (i : UInt64) (count : Nat)
    (c : Course σ) :
    Remembers s c
      (match runLoop body acc i count c with
        | (.ok text, c) => ((.ok text, c.pop) : Run σ)
        | (.error fault, c) => (.error fault, c)).2 := by
  induction count generalizing acc i c with
  | zero => exact .pop c
  | succ count ih =>
    rw [runLoop]
    have hround : Remembers s c (body i (c.setTop i)).2 := (Remembers.setTop c i).trans (hbody i _)
    cases hrun : body i (c.setTop i) with
    | mk result c' =>
      rw [hrun] at hround
      cases result with
      | ok text => exact hround.trans (ih (acc ++ text) (i + 1) c')
      | error fault => exact hround

mutual

theorem remembers_runStep (around : Around) (step : Step) (c : Course σ) :
    Remembers s c (runStep s around step c).2 := by
  cases step with
  | group id body =>
    rw [runStep]
    have hnote : Remembers s c (c.note around (some (.group id body))) := .note around _ rfl
    have henter : Remembers s c
        (((c.note around (some (.group id body))).enter id).note (around.inGroup id) none) :=
      (hnote.trans (.enter _ id)).trans (.note (around.inGroup id) none rfl)
    have hbody := henter.trans (remembers_runSteps (around.inGroup id) "" body _)
    cases hrun : runSteps s (around.inGroup id) "" body
        (((c.note around (some (.group id body))).enter id).note (around.inGroup id) none) with
    | mk result c' =>
      rw [hrun] at hbody
      cases result with
      | ok text => exact (hbody.trans (.complete c' id text)).trans (.note around none rfl)
      | error fault => exact hbody
  | repetition step bounds construct =>
    rw [runStep]
    have hnote : Remembers s c (c.note around (some (.repetition step bounds construct))) :=
      .note around _ rfl
    change Remembers s c (match s.countRange c.counters construct bounds with
      | .error fault => _
      | .ok r => _ : Run σ).2
    cases s.countRange c.counters construct bounds with
    | error fault => exact hnote
    | ok r =>
      have hdecided := hnote.trans (.settle _ (Chooser.count r.lo r.hi r.le c.progress.chooser).2)
      refine (hdecided.trans (.push _)).trans ?_
      exact remembers_runLoop s (fun i c => remembers_runStep (around.inRound i) step c) "" 0 _ _
  | alternation branches =>
    rw [runStep]
    have hnote : Remembers s c (c.note around (some (.alternation branches))) := .note around _ rfl
    dsimp only
    split
    next => exact (hnote.trans (.settle _ _)).trans (remembers_runBranch around branches _ _)
    next => exact hnote
  | literal _ | oneOf _ | backref _ | source _ _ _ | numeric _ _ =>
    exact remembers_runStep_of_isSimple s around rfl c

theorem remembers_runSteps (around : Around) (acc : String) (steps : List Step) (c : Course σ) :
    Remembers s c (runSteps s around acc steps c).2 := by
  cases steps with
  | nil => exact .refl c
  | cons step steps =>
    rw [runSteps]
    have hstep := remembers_runStep around step c
    cases hrun : runStep s around step c with
    | mk result c' =>
      rw [hrun] at hstep
      cases result with
      | ok text => exact hstep.trans (remembers_runSteps around (acc ++ text) steps c')
      | error fault => exact hstep

theorem remembers_runBranch (around : Around) (branches : List (List Step)) (i : Nat)
    (c : Course σ) : Remembers s c (runBranch s around branches i c).2 := by
  cases branches with
  | nil => exact .refl c
  | cons branch branches =>
    cases i with
    | zero => exact remembers_runSteps around "" branch c
    | succ i => exact remembers_runBranch around branches i c

end

end Runs

/-! ### What a look yields -/

section Text

variable {s : Setting} {counters : List UInt64} {place : Expression} {x : Float} {p : Progress σ}
  {current first : String}

end Text

/-! ### Any sequence of actions -/

/-- A look at the first range: the range in which it was taken, and the source groups of that range. -/
structure Ask where
  rangeIndex : UInt64
  groups : Array (Option String)
  deriving DecidableEq

/-- The groups to be remembered after these looks, of which the latest is the first in the list: those
of the latest one in range zero, else those of the earliest. -/
def snapshotOf (asks : List Ask) : Option (Array (Option String)) :=
  ((asks.find? (·.rangeIndex == 0)).or asks.getLast?).map Ask.groups

theorem snapshotOf_eq_none_iff (asks : List Ask) : snapshotOf asks = none ↔ asks = [] := by
  unfold snapshotOf
  cases asks with
  | nil => simp
  | cons ask asks =>
    rw [List.getLast?_cons]
    simp

/-- One more look counts in range zero, and where it is the earliest. -/
theorem snapshotOf_cons (ask : Ask) (asks : List Ask) :
    snapshotOf (ask :: asks) =
      if ask.rangeIndex = 0 ∨ (snapshotOf asks).isNone then some ask.groups else snapshotOf asks := by
  simp only [Option.isNone_iff_eq_none, snapshotOf_eq_none_iff]
  by_cases hzero : ask.rangeIndex = 0
  · rw [if_pos (.inl hzero), snapshotOf, List.find?_cons_of_pos (by rw [hzero, beq_self_eq_true])]
    rfl
  · have hfind : (ask :: asks).find? (·.rangeIndex == 0) = asks.find? (·.rangeIndex == 0) :=
      List.find?_cons_of_neg fun h => hzero (beq_iff_eq.1 h)
    rw [snapshotOf, hfind]
    cases asks with
    | nil => simp
    | cons ask' asks =>
      rw [if_neg (by simp [hzero]), List.getLast?_cons_cons, snapshotOf]

namespace Generator

theorem firstGroups_reseed [Seeded σ] (g : Generator σ) (seed : UInt64) :
    (g.reseed seed).firstGroups = g.firstGroups := rfl

/-- The looks at the first range that a generation takes, the latest first. -/
def asks [Chooser σ] (g : Generator σ) : List Ask :=
  (g.generateRun.2.moments.filter (Moment.asksFirst g.setting)).map
    fun _ => ⟨g.rangeIndex, g.sourceGroups⟩

theorem remembers_generateRun [Chooser σ] (g : Generator σ) :
    Remembers g.setting { progress := ⟨g.chooser, #[], g.firstGroups⟩ } g.generateRun.2 :=
  remembers_runSteps g.setting {} "" g.program.steps _

theorem firstGroups_generate_eq [Chooser σ] (g : Generator σ) :
    g.generate.2.firstGroups = g.generateRun.2.progress.firstGroups := by
  rw [g.generate_eq_generateRun]

theorem firstGroups_generate [Chooser σ] (g : Generator σ) :
    g.generate.2.firstGroups = g.setting.remembered (!g.asks.isEmpty) g.firstGroups := by
  obtain ⟨moments, happend, hfirst, -⟩ := g.remembers_generateRun
  rw [List.append_nil] at happend
  have hasked : (!g.asks.isEmpty) = moments.any (Moment.asksFirst g.setting) := by
    rw [asks, List.isEmpty_map, happend, Bool.eq_iff_iff]
    simp
  rw [hasked, ← hfirst, g.firstGroups_generate_eq]

/-- The looks of one generation are all taken in the same range. -/
theorem snapshotOf_asks_append [Chooser σ] (g : Generator σ) (asks : List Ask) :
    snapshotOf (g.asks ++ asks) = g.setting.remembered (!g.asks.isEmpty) (snapshotOf asks) := by
  unfold Generator.asks
  generalize g.generateRun.2.moments.filter (Moment.asksFirst g.setting) = moments
  induction moments with
  | nil => exact (g.setting.remembered_false _).symm
  | cons m moments ih =>
    have hcons (first : Option (Array (Option String))) :
        (if g.rangeIndex = 0 ∨ first.isNone then some g.sourceGroups else first) =
          g.setting.remembered true first := by
      simp [Setting.remembered, setting]
    rw [List.map_cons, List.cons_append, snapshotOf_cons, ih, hcons,
      Setting.remembered_remembered, Bool.true_or]
    rfl

end Generator

/-- A generator in use, and the looks at the first range since that was last forgotten, the latest
first. -/
structure History (σ : Type) where
  generator : Generator σ
  asks : List Ask := []

namespace History

/-- The looks to be counted after an action. -/
def asksAfter [Chooser σ] (h : History σ) : Action → List Ask
  | .generate => h.generator.asks ++ h.asks
  | .resetFirst => []
  | .setRange _ _ | .reseed _ => h.asks

def perform [Chooser σ] [Seeded σ] (h : History σ) (action : Action) : History σ where
  generator := (h.generator.perform action).2
  asks := h.asksAfter action

/-- What is remembered is what the looks so far tell. -/
def Recalls (h : History σ) : Prop := h.generator.firstGroups = snapshotOf h.asks

theorem recalls_perform_iff [Chooser σ] [Seeded σ] (h : History σ) (action : Action) :
    (h.perform action).Recalls ↔
      (h.generator.perform action).2.firstGroups = snapshotOf (h.asksAfter action) := Iff.rfl

theorem Recalls.perform [Chooser σ] [Seeded σ] {h : History σ} (hrecalls : h.Recalls) (action : Action) :
    (h.perform action).Recalls := by
  rw [recalls_perform_iff]
  unfold Recalls at hrecalls
  cases action with
  | generate =>
    rw [asksAfter, h.generator.snapshotOf_asks_append, ← hrecalls,
      ← h.generator.firstGroups_generate]
    unfold Generator.perform
    generalize h.generator.generate = made
    rfl
  | setRange index groups => exact hrecalls
  | reseed seed =>
    rw [asksAfter, ← hrecalls]
    exact h.generator.firstGroups_reseed seed
  | resetFirst => rfl

theorem Recalls.foldl [Chooser σ] [Seeded σ] {h : History σ} (hrecalls : h.Recalls) (actions : List Action) :
    (actions.foldl History.perform h).Recalls := by
  induction actions generalizing h with
  | nil => exact hrecalls
  | cons action actions ih => exact ih (hrecalls.perform action)

end History

end PatternText
