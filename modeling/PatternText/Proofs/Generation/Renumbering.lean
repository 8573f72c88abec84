import Mathlib.Data.Set.Function
import PatternText.Proofs.Generation.SideBySide
import PatternText.Proofs.Guarded.Session

/-! Other numbers for the groups. A reference to a group tells its place in the order of first entry, so
the numbers of the groups only have to be told apart: a program whose groups bear other numbers, no two
the same, generates the same texts, fails with the same errors, takes the same decisions and remembers the
same first range. If all of these numbers lie below the number of slots, each group has a slot to claim. -/

namespace PatternText

/-- The program with its groups under other numbers, and with slots for so many. -/
def Program.renumber (rename : Nat → Nat) (groupCount : Nat) (p : Program) : Program where
  steps := renumberSteps rename p.steps
  groupCount := groupCount

/-! ### The numbers of a renumbered program -/

mutual

theorem Step.groupIds_renumber (rename : Nat → Nat) (step : Step) :
    (step.renumber rename).groupIds = step.groupIds.map rename := by
  cases step with
  | literal _ | oneOf _ | backref _ | source _ _ _ | numeric _ _ => rfl
  | group id body =>
    rw [Step.renumber, Step.groupIds, Step.groupIds, groupIds_renumberSteps rename body, List.map_cons]
  | repetition step bounds construct =>
    rw [Step.renumber, Step.groupIds, Step.groupIds, Step.groupIds_renumber rename step]
  | alternation branches =>
    rw [Step.renumber, Step.groupIds, Step.groupIds, groupIds_renumberBranches rename branches]

theorem groupIds_renumberSteps (rename : Nat → Nat) (steps : List Step) :
    stepsGroupIds (renumberSteps rename steps) = (stepsGroupIds steps).map rename := by
  cases steps with
  | nil => rfl
  | cons step steps =>
    rw [renumberSteps, stepsGroupIds, stepsGroupIds, Step.groupIds_renumber rename step,
      groupIds_renumberSteps rename steps, List.map_append]

theorem groupIds_renumberBranches (rename : Nat → Nat) (branches : List (List Step)) :
    branchesGroupIds (renumberBranches rename branches) = (branchesGroupIds branches).map rename := by
  cases branches with
  | nil => rfl
  | cons branch branches =>
    rw [renumberBranches, branchesGroupIds, branchesGroupIds, groupIds_renumberSteps rename branch,
      groupIds_renumberBranches rename branches, List.map_append]

end

theorem mem_stepsGroupIds {id : Nat} {steps : List Step} :
    id ∈ stepsGroupIds steps ↔ ∃ step ∈ steps, id ∈ step.groupIds := by
  induction steps with
  | nil => simp [stepsGroupIds]
  | cons step steps ih => rw [stepsGroupIds, List.mem_append, ih, List.exists_mem_cons_iff]

theorem mem_branchesGroupIds {id : Nat} {branches : List (List Step)} :
    id ∈ branchesGroupIds branches ↔ ∃ branch ∈ branches, id ∈ stepsGroupIds branch := by
  induction branches with
  | nil => simp [branchesGroupIds]
  | cons branch branches ih => rw [branchesGroupIds, List.mem_append, ih, List.exists_mem_cons_iff]

/-- A number in a step inside is a number in the step. -/
theorem passedDown_groupIds (ids : Set Nat) : Step.PassedDown fun step => ∀ id ∈ step.groupIds, id ∈ ids where
  body h step hstep id hid :=
    h id (List.mem_cons_of_mem _ (mem_stepsGroupIds.2 ⟨step, hstep, hid⟩))
  operand h := h
  branches h branch hbranch step hstep id hid :=
    h id (mem_branchesGroupIds.2 ⟨branch, hbranch, mem_stepsGroupIds.2 ⟨step, hstep, hid⟩⟩)

/-! ### Captures under other numbers -/

variable {σ : Type}

/-- The same groups were entered in the same order and with the same texts, on the second side under their
other numbers; nothing else differs. -/
structure Renumbered (rename : Nat → Nat) (ids : Set Nat) (p p' : Progress σ) : Prop where
  chooser : p'.chooser = p.chooser
  firstGroups : p'.firstGroups = p.firstGroups
  captures : p'.captures = p.captures.map fun captured => (rename captured.1, captured.2)
  entered : ∀ captured ∈ p.captures, captured.1 ∈ ids

namespace Renumbered

variable {rename : Nat → Nat} {ids : Set Nat} {p p' : Progress σ} {id : Nat}

/-- Numbers that are told apart before are told apart after. -/
theorem beq_rename (hinj : Set.InjOn rename ids) {id' : Nat} (hid : id ∈ ids) (hid' : id' ∈ ids) :
    (rename id' == rename id) = (id' == id) := by
  rw [Bool.eq_iff_iff, beq_iff_eq, beq_iff_eq]
  exact hinj.eq_iff hid' hid

theorem decided (h : Renumbered rename ids p p') (chooser : σ) :
    Renumbered rename ids { p with chooser } { p' with chooser } :=
  ⟨rfl, h.firstGroups, h.captures, h.entered⟩

theorem enter (h : Renumbered rename ids p p') (hinj : Set.InjOn rename ids) (hid : id ∈ ids) :
    Renumbered rename ids (p.enter id) (p'.enter (rename id)) := by
  have hknown : p'.captures.any (·.1 == rename id) = p.captures.any (·.1 == id) := by
    rw [h.captures, Array.any_map, Bool.eq_iff_iff, Array.any_eq_true', Array.any_eq_true']
    refine exists_congr fun captured => and_congr_right fun hmem => ?_
    rw [Function.comp_apply, beq_rename hinj hid (h.entered captured hmem)]
  rw [Progress.enter, Progress.enter, hknown]
  split
  · exact h
  · refine ⟨h.chooser, h.firstGroups, ?_, fun captured hmem => ?_⟩
    · show p'.captures.push (rename id, "") = (p.captures.push (id, "")).map _
      rw [Array.map_push, h.captures]
    · rcases Array.mem_push.1 hmem with hmem | rfl
      · exact h.entered captured hmem
      · exact hid

theorem complete (h : Renumbered rename ids p p') (hinj : Set.InjOn rename ids) (hid : id ∈ ids)
    (text : String) : Renumbered rename ids (p.complete id text) (p'.complete (rename id) text) := by
  refine ⟨h.chooser, h.firstGroups, ?_, fun captured hmem => ?_⟩
  · show p'.captures.map _ = (p.captures.map _).map _
    rw [h.captures, Array.map_map, Array.map_map]
    refine Array.map_congr_left fun captured hmem => ?_
    rw [Function.comp_apply, Function.comp_apply, beq_rename hinj hid (h.entered captured hmem)]
    split <;> rfl
  · obtain ⟨before, hbefore, rfl⟩ := Array.mem_map.1 hmem
    split
    · exact hid
    · exact h.entered before hbefore

theorem captured? (h : Renumbered rename ids p p') (place : UInt64) :
    p'.captured? place = p.captured? place := by
  rw [Progress.captured?, Progress.captured?, h.captures, Array.getElem?_map, Option.map_map]
  rfl

theorem rememberFirst (h : Renumbered rename ids p p') (s : Setting) :
    Renumbered rename ids (s.rememberFirst p) (s.rememberFirst p') := by
  rw [Setting.rememberFirst, Setting.rememberFirst, h.firstGroups]
  split
  · exact ⟨h.chooser, rfl, h.captures, h.entered⟩
  · exact h

theorem sourceText (h : Renumbered rename ids p p') (s : Setting) (counters : List UInt64)
    (place : Expression) (modifier : Option FirstModifier) (construct : String) :
    Matched (Renumbered rename ids) (s.sourceText counters place modifier construct p)
      (s.sourceText counters place modifier construct p') := by
  rw [Setting.sourceText, Setting.sourceText]
  cases place.value (s.scope counters) with
  | error fault => exact ⟨rfl, h⟩
  | ok x =>
    have hremember : Renumbered rename ids (if modifier.isSome then s.rememberFirst p else p)
        (if modifier.isSome then s.rememberFirst p' else p') := by
      split
      · exact h.rememberFirst s
      · exact h
    dsimp only
    generalize (if modifier.isSome then s.rememberFirst p else p) = q at hremember ⊢
    generalize (if modifier.isSome then s.rememberFirst p' else p') = q' at hremember ⊢
    rw [hremember.firstGroups]
    cases groupAt? s.sourceGroups (indexValue? x) with
    | none => exact ⟨rfl, hremember⟩
    | some current =>
      -- whichever text is taken, both sides take it
      dsimp only
      split <;> exact ⟨rfl, hremember⟩

theorem coupled [Chooser σ] (s : Setting) (hinj : Set.InjOn rename ids) :
    Coupled (σ := σ) s rename (fun step => ∀ id ∈ step.groupIds, id ∈ ids) (Renumbered rename ids) where
  passedDown := passedDown_groupIds ids
  chooser h := h.chooser
  decided h := h.decided
  enter h _ _ hP := h.enter hinj (hP _ (List.mem_cons_self ..))
  complete h _ _ hP := h.complete hinj (hP _ (List.mem_cons_self ..))
  captured? h := h.captured?
  source h _ _ _ _ counters := h.sourceText s counters _ _ _

end Renumbered

/-- With numbers for its groups that are no two the same, a program generates the same text or fails with
the same error, and leaves the same random source and the same first range. If the numbers lie below the
number of slots, generation on the table of slots asks for no slot that is not there, and does the same. -/
theorem generate_renumbered [Chooser σ] (g : Generator σ) {rename : Nat → Nat} {groupCount : Nat}
    (hinj : Set.InjOn rename {id | id ∈ g.program.groupIds})
    (hlt : ∀ id ∈ g.program.groupIds, rename id < groupCount) :
    let renumbered : Generator σ := { g with program := g.program.renumber rename groupCount }
    let m : Guarded.Machine σ := { renumbered with sourceValues := g.setting.sourceValues }
    renumbered.generate = (g.generate.1, { g.generate.2 with program := renumbered.program }) ∧
      Safe m.generate fun answered => answered.1 = g.generate.1 ∧
        answered.2.toGenerator = { g.generate.2 with program := renumbered.program } := by
  intro renumbered m
  have hstart : Renumbered rename {id | id ∈ g.program.groupIds}
      (⟨g.chooser, #[], g.firstGroups⟩ : Progress σ) ⟨renumbered.chooser, #[], renumbered.firstGroups⟩ :=
    ⟨rfl, rfl, Array.map_empty.symm, fun _ hmem => absurd hmem (Array.not_mem_empty _)⟩
  have hsteps : renumbered.program.steps = renumberSteps rename g.program.steps := rfl
  have hgenerate : renumbered.generate =
      (g.generate.1, { g.generate.2 with program := renumbered.program }) := by
    obtain ⟨result, q, q', hq, hfirst, hsecond⟩ := (Renumbered.coupled g.setting hinj).generate
      (fun step hstep id hid => mem_stepsGroupIds.2 ⟨step, hstep, hid⟩) hsteps rfl hstart
    rw [hfirst, hsecond, hq.chooser, hq.firstGroups]
  have hready : m.Ready := by
    refine ⟨rfl, fun id hid => ?_⟩
    have hid : id ∈ stepsGroupIds (renumberSteps rename g.program.steps) := hid
    rw [groupIds_renumberSteps] at hid
    obtain ⟨id', hid', rfl⟩ := List.mem_map.1 hid
    exact hlt id' hid'
  refine ⟨hgenerate, (Guarded.Machine.safe_generate hready).mono fun answered h => ?_⟩
  have hanswered : (answered.1, answered.2.toGenerator) =
      (g.generate.1, { g.generate.2 with program := renumbered.program }) := h.1.trans hgenerate
  exact ⟨congrArg Prod.fst hanswered, congrArg Prod.snd hanswered⟩

/-- Rounds that enter one of two groups, of which the second one refers to the group entered first. -/
def eitherGroup : Program :=
  ⟨[.repetition (.alternation [[.group 0 [.literal "a"]], [.group 1 [.literal "b", .backref 1]]])
      (.exactly (.ofText "3")) "{3}", .backref 1, .backref 2], 2⟩

/-- The second group is entered first here, whatever its number. -/
theorem eitherGroup_renumbered :
    let g := Generator.ofProgram (.ofSettings {}) eitherGroup 3
    let rename := fun id => 5 - 3 * id
    let renumbered := { g with program := g.program.renumber rename 6 }
    Set.InjOn rename {id | id ∈ g.program.groupIds} ∧ (∀ id ∈ g.program.groupIds, rename id < 6) ∧
      g.generate.1.toOption = some "baaba" ∧
      renumbered.generate = (g.generate.1, { g.generate.2 with program := renumbered.program }) := by
  intro g rename renumbered
  have hids : g.program.groupIds = [0, 1] := rfl
  have hinj : Set.InjOn rename {id | id ∈ g.program.groupIds} := by
    rw [hids]
    intro id hid id' hid' heq
    simp only [Set.mem_ofPred_eq, List.mem_cons, List.not_mem_nil, or_false] at hid hid'
    dsimp only [rename] at heq
    omega
  have hlt : ∀ id ∈ g.program.groupIds, rename id < 6 := by
    rw [hids]
    decide
  exact ⟨hinj, hlt, by decide +kernel, (generate_renumbered g hinj hlt).1⟩

end PatternText
