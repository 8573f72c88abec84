import PatternText.Proofs.Program.Making

/-! Compilation in context. The steps that a forest makes do not depend on where it stands: groups that
opened before raise the numbers of its groups by their count, and steps made before stay as they are, for
a quantifier takes them only when the forest has made none itself. Raising group numbers changes no
depth. -/

namespace PatternText

mutual

/-- The step with `n` added to the number of every group in it. -/
def Step.shift (n : Nat) : Step → Step
  | .group id body => .group (id + n) (shiftSteps n body)
  | .repetition step bounds construct => .repetition (step.shift n) bounds construct
  | .alternation branches => .alternation (shiftBranches n branches)
  | .literal text => .literal text
  | .oneOf chars => .oneOf chars
  | .backref place => .backref place
  | .source place modifier construct => .source place modifier construct
  | .numeric value format => .numeric value format

/-- The steps with `n` added to the number of every group in them. -/
def shiftSteps (n : Nat) : List Step → List Step
  | [] => []
  | step :: steps => step.shift n :: shiftSteps n steps

def shiftBranches (n : Nat) : List (List Step) → List (List Step)
  | [] => []
  | branch :: branches => shiftSteps n branch :: shiftBranches n branches

end

theorem shiftSteps_eq_map (n : Nat) (steps : List Step) :
    shiftSteps n steps = steps.map (Step.shift n) := by
  induction steps with
  | nil => rfl
  | cons step steps ih => rw [shiftSteps, ih, List.map_cons]

theorem shiftBranches_eq_map (n : Nat) (branches : List (List Step)) :
    shiftBranches n branches = branches.map (shiftSteps n) := by
  induction branches with
  | nil => rfl
  | cons branch branches ih => rw [shiftBranches, ih, List.map_cons]

theorem shiftSteps_reverse (n : Nat) (steps : List Step) :
    shiftSteps n steps.reverse = (shiftSteps n steps).reverse := by
  rw [shiftSteps_eq_map, shiftSteps_eq_map, List.map_reverse]

theorem shiftBranches_reverse (n : Nat) (branches : List (List Step)) :
    shiftBranches n branches.reverse = (shiftBranches n branches).reverse := by
  rw [shiftBranches_eq_map, shiftBranches_eq_map, List.map_reverse]

/-! ### Depth -/

mutual

theorem Step.depth_shift (n : Nat) (step : Step) : (step.shift n).depth = step.depth := by
  cases step with
  | group id body => rw [Step.shift, Step.depth, Step.depth, stepsDepth_shift]
  | repetition step bounds construct => rw [Step.shift, Step.depth, Step.depth, Step.depth_shift]
  | alternation branches => rw [Step.shift, Step.depth, Step.depth, branchesDepth_shift]
  | literal _ | oneOf _ | backref _ | source _ _ _ | numeric _ _ => rfl

theorem stepsDepth_shift (n deepest : Nat) (steps : List Step) :
    stepsDepth deepest (shiftSteps n steps) = stepsDepth deepest steps := by
  cases steps with
  | nil => rfl
  | cons step steps => rw [shiftSteps, stepsDepth, stepsDepth, Step.depth_shift, stepsDepth_shift]

theorem branchesDepth_shift (n deepest : Nat) (branches : List (List Step)) :
    branchesDepth deepest (shiftBranches n branches) = branchesDepth deepest branches := by
  cases branches with
  | nil => rfl
  | cons branch branches =>
    rw [shiftBranches, branchesDepth, branchesDepth, stepsDepth_shift, branchesDepth_shift]

end

theorem stepsDepth_eq_max (deepest : Nat) (steps : List Step) :
    stepsDepth deepest steps = max deepest (stepsDepth 0 steps) := by
  induction steps generalizing deepest with
  | nil => rw [stepsDepth, stepsDepth, Nat.max_zero]
  | cons step steps ih =>
    rw [stepsDepth, stepsDepth, ih (max deepest step.depth), ih (max 0 step.depth), Nat.zero_max,
      Nat.max_assoc]

theorem branchesDepth_eq_max (deepest : Nat) (branches : List (List Step)) :
    branchesDepth deepest branches = max deepest (branchesDepth 0 branches) := by
  induction branches generalizing deepest with
  | nil => rw [branchesDepth, branchesDepth, Nat.max_zero]
  | cons branch branches ih =>
    rw [branchesDepth, branchesDepth, ih (max deepest _), ih (max 0 _), Nat.zero_max, Nat.max_assoc]

theorem stepsDepth_append (steps steps' : List Step) :
    stepsDepth 0 (steps ++ steps') = max (stepsDepth 0 steps) (stepsDepth 0 steps') := by
  induction steps with
  | nil => rw [List.nil_append, stepsDepth, Nat.zero_max]
  | cons step steps ih =>
    rw [List.cons_append, stepsDepth, stepsDepth, stepsDepth_eq_max, ih,
      stepsDepth_eq_max (max 0 step.depth) steps, Nat.max_assoc, Nat.max_assoc, Nat.zero_max,
      Nat.zero_max]

/-! ### Forests in context -/

namespace Step

theorem shift_of_isSimple {step : Step} (h : step.isSimple = true) (n : Nat) :
    step.shift n = step := by
  cases step with
  | literal _ | oneOf _ | backref _ | source _ _ _ | numeric _ _ => rfl
  | group _ _ | repetition _ _ _ | alternation _ => cases h

theorem addPlain_shift {config : Config} {made out : List Step} {t : ParseTree} {c : Construct}
    (h : addPlain config made t c = .ok out) (n : Nat) (before : List Step) :
    addPlain config (shiftSteps n made ++ before) t c = .ok (shiftSteps n out ++ before) := by
  cases makes_of_addPlain h with
  | nothing _ hall => exact hall _
  | simple hsimple hall =>
    rw [shiftSteps, shift_of_isSimple hsimple]
    exact hall _
  | repetition _ hmade _ hall =>
    subst hmade
    exact hall _ _

end Step

namespace ParseTree

variable {config : Config}

theorem addForest_construct {groups : Nat} {made : List Step} {t : ParseTree} {ts : List ParseTree}
    {c : Construct} (h : t.construct? = some c) :
    addForest config groups made (t :: ts) =
      match addConstruct config groups made t c with
      | .ok (made, groups) => addForest config groups made ts
      | .error e => .error e := by
  rewrite [addForest, h]
  rfl

theorem addForest_none {groups : Nat} {made : List Step} {t : ParseTree} {ts : List ParseTree}
    (h : t.construct? = none) :
    addForest config groups made (t :: ts) = addForest config groups made (t.children ++ ts) := by
  rw [addForest, h]

theorem addConstruct_group {groups : Nat} {made : List Step} {t inner : ParseTree}
    (h : firstNamed "REGEX" t.children = some inner) :
    addConstruct config groups made t .group =
      match addForest config (groups + 1) [] [inner] with
      | .ok (body, opened) => .ok (.group groups body.reverse :: made, opened)
      | .error e => .error e := by
  rw [addConstruct]
  split
  next inner' h' =>
    obtain rfl := Option.some.inj (h.symm.trans h')
    rfl
  next h' =>
    rw [h] at h'
    cases h'

theorem addConstruct_group_none {groups : Nat} {made : List Step} {t : ParseTree}
    (h : firstNamed "REGEX" t.children = none) :
    addConstruct config groups made t .group = .ok (.group groups [] :: made, groups + 1) := by
  rw [addConstruct]
  split
  next inner' h' =>
    rw [h] at h'
    cases h'
  next => rfl

theorem addConstruct_plain {groups : Nat} {made : List Step} {t : ParseTree} {c : Construct}
    (hgroup : c ≠ .group) (halternatives : c ≠ .alternatives) :
    addConstruct config groups made t c =
      match Step.addPlain config made t c with
      | .ok made => .ok (made, groups)
      | .error e => .error e := by
  cases c with
  | group => exact absurd rfl hgroup
  | alternatives => exact absurd rfl halternatives
  | _ =>
    rewrite [addConstruct.eq_def]
    rfl

/-- Raising the group numbers and putting steps before those made changes nothing else. -/
def ForestShifts (config : Config) (groups : Nat) (made : List Step) (ts : List ParseTree) : Prop :=
  ∀ {out : List Step} {opened : Nat}, addForest config groups made ts = .ok (out, opened) →
    ∀ (n : Nat) (before : List Step),
      addForest config (groups + n) (shiftSteps n made ++ before) ts =
        .ok (shiftSteps n out ++ before, opened + n)

def ConstructShifts (config : Config) (groups : Nat) (made : List Step) (t : ParseTree)
    (c : Construct) : Prop :=
  ∀ {out : List Step} {opened : Nat}, addConstruct config groups made t c = .ok (out, opened) →
    ∀ (n : Nat) (before : List Step),
      addConstruct config (groups + n) (shiftSteps n made ++ before) t c =
        .ok (shiftSteps n out ++ before, opened + n)

def BranchesShift (config : Config) (groups : Nat) (made : List (List Step)) (ts : List ParseTree) :
    Prop :=
  ∀ {out : List (List Step)} {opened : Nat}, addBranches config groups made ts = .ok (out, opened) →
    ∀ (n : Nat) (before : List (List Step)),
      addBranches config (groups + n) (shiftBranches n made ++ before) ts =
        .ok (shiftBranches n out ++ before, opened + n)

theorem shifts (config : Config) :
    (∀ groups made ts, ForestShifts config groups made ts) ∧
      (∀ groups made t c, ConstructShifts config groups made t c) ∧
      ∀ groups made ts, BranchesShift config groups made ts := by
  apply addForest.mutual_induct config (ForestShifts config) (ConstructShifts config)
    (BranchesShift config)
  case case1 =>
    intro groups made out opened h n before
    rw [addForest] at h ⊢
    cases h
    rfl
  case case2 =>
    intro groups made t ts hnone ih out opened h n before
    rw [addForest, hnone] at h ⊢
    exact ih h n before
  case case3 =>
    intro groups made t ts c hsome made' groups' hconstruct ihc ih out opened h n before
    rw [addForest, hsome] at h ⊢
    dsimp only at h ⊢
    rw [hconstruct] at h
    rw [ihc hconstruct n before]
    exact ih h n before
  case case4 =>
    intro groups made t ts c hsome e hconstruct ihc out opened h
    rw [addForest, hsome] at h
    dsimp only at h
    rw [hconstruct] at h
    cases h
  case case5 =>
    intro groups made t inner hinner body opened' hbody ih out opened h n before
    rw [addConstruct_group hinner, hbody] at h
    cases h
    have hshift := ih hbody n []
    rw [shiftSteps, List.nil_append, List.append_nil, Nat.add_right_comm] at hshift
    rw [addConstruct_group hinner, hshift, shiftSteps, Step.shift, shiftSteps_reverse]
    rfl
  case case6 =>
    intro groups made t inner hinner e hbody ih out opened h
    rw [addConstruct_group hinner, hbody] at h
    cases h
  case case7 =>
    intro groups made t hnone out opened h n before
    rw [addConstruct_group_none hnone] at h ⊢
    cases h
    rw [Nat.add_right_comm]
    rfl
  case case8 =>
    intro groups made t branches opened' hbranches ih out opened h n before
    rw [addConstruct, hbranches] at h
    cases h
    have hshift := ih hbranches n []
    rw [shiftBranches, List.nil_append, List.append_nil] at hshift
    rw [addConstruct, hshift, shiftSteps, Step.shift, shiftBranches_reverse]
    rfl
  case case9 =>
    intro groups made t e hbranches ih out opened h
    rw [addConstruct, hbranches] at h
    cases h
  case case10 =>
    intro groups made t c hgroup halternatives made' hplain out opened h n before
    rw [addConstruct_plain hgroup halternatives, hplain] at h
    cases h
    rw [addConstruct_plain hgroup halternatives, Step.addPlain_shift hplain n before]
  case case11 =>
    intro groups made t c hgroup halternatives e hplain out opened h
    rw [addConstruct_plain hgroup halternatives, hplain] at h
    cases h
  case case12 =>
    intro groups made out opened h n before
    rw [addBranches] at h ⊢
    cases h
    rfl
  case case13 =>
    intro groups made t ts made' groups' hforest ihf ih out opened h n before
    rw [addBranches, hforest] at h
    have hshift := ihf hforest n []
    rw [shiftSteps, List.nil_append, List.append_nil] at hshift
    rw [addBranches, hshift]
    dsimp only
    rw [← shiftSteps_reverse]
    exact ih h n before
  case case14 =>
    intro groups made t ts e hforest ihf out opened h
    rw [addBranches, hforest] at h
    cases h

/-- What comes first in a forest is compiled first. -/
theorem addForest_append (us : List ParseTree) : ∀ (groups : Nat) (made : List Step)
    (ts : List ParseTree),
    addForest config groups made (ts ++ us) =
      match addForest config groups made ts with
      | .ok (made, groups) => addForest config groups made us
      | .error e => .error e
  | groups, made, [] => by rw [addForest, List.nil_append]
  | groups, made, t :: ts => by
    rw [List.cons_append]
    cases hconstruct : t.construct? with
    | none =>
      rw [addForest_none hconstruct, addForest_none hconstruct, ← List.append_assoc]
      exact addForest_append us groups made (t.children ++ ts)
    | some c =>
      rw [addForest_construct hconstruct, addForest_construct hconstruct]
      cases addConstruct config groups made t c with
      | error e => rfl
      | ok r => exact addForest_append us r.2 r.1 ts
termination_by _ _ ts => sizeOf ts
decreasing_by
  · exact sizeOf_children_append_lt t ts
  · exact sizeOf_tail_lt t ts

theorem addForest_append_ok {groups opened : Nat} {made out : List Step} {ts us : List ParseTree}
    (h : addForest config groups made ts = .ok (out, opened)) :
    addForest config groups made (ts ++ us) = addForest config opened out us := by
  rw [addForest_append, h]

/-- Two forests compile one after the other only if each of them compiles. -/
theorem exists_of_addForest_append {groups opened : Nat} {made out : List Step}
    {ts us : List ParseTree} (h : addForest config groups made (ts ++ us) = .ok (out, opened)) :
    ∃ mid between, addForest config groups made ts = .ok (mid, between) ∧
      addForest config between mid us = .ok (out, opened) := by
  rw [addForest_append] at h
  cases hfirst : addForest config groups made ts with
  | error e =>
    rw [hfirst] at h
    cases h
  | ok m =>
    rw [hfirst] at h
    exact ⟨m.1, m.2, rfl, h⟩

end ParseTree

end PatternText
