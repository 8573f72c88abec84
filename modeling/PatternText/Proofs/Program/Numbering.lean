import PatternText.Proofs.Program.Shift

/-! The numbers of groups. Compilation counts the groups that have opened, so the groups of a program,
listed in the order in which they open, bear the numbers from zero on without a gap; no two of them
share a number, and a number alone tells which groups its group is nested in. A quantifier that takes a
finished step as its operand leaves the list as it is. -/

namespace PatternText

mutual

/-- The numbers of the groups in a step, in the order in which these open. -/
def Step.groupIds : Step → List Nat
  | .group id body => id :: stepsGroupIds body
  | .repetition step _ _ => step.groupIds
  | .alternation branches => branchesGroupIds branches
  | .literal _ | .oneOf _ | .backref _ | .source _ _ _ | .numeric _ _ => []

def stepsGroupIds : List Step → List Nat
  | [] => []
  | step :: steps => step.groupIds ++ stepsGroupIds steps

def branchesGroupIds : List (List Step) → List Nat
  | [] => []
  | branch :: branches => stepsGroupIds branch ++ branchesGroupIds branches

end

/-- The numbers of the groups of a program. -/
def Program.groupIds (p : Program) : List Nat := stepsGroupIds p.steps

theorem stepsGroupIds_append (steps steps' : List Step) :
    stepsGroupIds (steps ++ steps') = stepsGroupIds steps ++ stepsGroupIds steps' := by
  induction steps with
  | nil => rfl
  | cons step steps ih => rw [List.cons_append, stepsGroupIds, stepsGroupIds, ih, List.append_assoc]

theorem branchesGroupIds_append (branches branches' : List (List Step)) :
    branchesGroupIds (branches ++ branches') = branchesGroupIds branches ++ branchesGroupIds branches' := by
  induction branches with
  | nil => rfl
  | cons branch branches ih =>
    rw [List.cons_append, branchesGroupIds, branchesGroupIds, ih, List.append_assoc]

/-- Steps are made in front of the list, so what was made last opens last. -/
theorem stepsGroupIds_reverse_cons (step : Step) (made : List Step) :
    stepsGroupIds (step :: made).reverse = stepsGroupIds made.reverse ++ step.groupIds := by
  rw [List.reverse_cons, stepsGroupIds_append, stepsGroupIds, stepsGroupIds, List.append_nil]

theorem branchesGroupIds_reverse_cons (branch : List Step) (made : List (List Step)) :
    branchesGroupIds (branch :: made).reverse =
      branchesGroupIds made.reverse ++ stepsGroupIds branch := by
  rw [List.reverse_cons, branchesGroupIds_append, branchesGroupIds, branchesGroupIds, List.append_nil]

/-! ### Constructs without steps of their own open no group -/

namespace Step

theorem groupIds_of_isSimple {step : Step} (h : step.isSimple = true) : step.groupIds = [] := by
  cases step with
  | literal _ | oneOf _ | backref _ | source _ _ _ | numeric _ _ => rfl
  | group _ _ | repetition _ _ _ | alternation _ => cases h

theorem groupIds_addPlain {config : Config} {made out : List Step} {t : ParseTree} {c : Construct}
    (h : addPlain config made t c = .ok out) :
    stepsGroupIds out.reverse = stepsGroupIds made.reverse := by
  cases makes_of_addPlain h with
  | nothing => rfl
  | simple hsimple =>
    rw [stepsGroupIds_reverse_cons, groupIds_of_isSimple hsimple, List.append_nil]
  | repetition _ hmade =>
    rw [hmade, stepsGroupIds_reverse_cons, stepsGroupIds_reverse_cons, Step.groupIds]

end Step

/-! ### Compilation numbers groups as they open -/

/-- The numbers from `first` up to `last` follow the ones before. -/
def Continues (before : List Nat) (first last : Nat) (after : List Nat) : Prop :=
  first ≤ last ∧ after = before ++ List.range' first (last - first)

namespace Continues

theorem refl (before : List Nat) (first : Nat) : Continues before first first before :=
  ⟨Nat.le_refl first, by rw [Nat.sub_self, List.range'_zero, List.append_nil]⟩

theorem trans {ids ids' ids'' : List Nat} {first middle last : Nat}
    (h : Continues ids first middle ids') (h' : Continues ids' middle last ids'') :
    Continues ids first last ids'' := by
  obtain ⟨hle, rfl⟩ := h
  obtain ⟨hle', rfl⟩ := h'
  refine ⟨Nat.le_trans hle hle', ?_⟩
  have hrange := List.range'_append_1 (s := first) (m := middle - first) (n := last - middle)
  rw [show first + (middle - first) = middle by omega,
    show middle - first + (last - middle) = last - first by omega] at hrange
  rw [List.append_assoc, hrange]

/-- What follows nothing can follow anything. -/
theorem after {ids : List Nat} {first last : Nat} (h : Continues [] first last ids)
    (before : List Nat) : Continues before first last (before ++ ids) :=
  ⟨h.1, congrArg (before ++ ·) h.2⟩

theorem cons {ids : List Nat} {first last : Nat} (h : Continues [] (first + 1) last ids) :
    Continues [] first last (first :: ids) :=
  (refl [] first).trans ⟨by have := h.1; omega, by
    rw [h.2, show last - first = last - (first + 1) + 1 by have := h.1; omega, List.range'_succ]
    rfl⟩

end Continues

namespace ParseTree

variable (config : Config)

def ForestNumbers (groups : Nat) (made : List Step) (ts : List ParseTree) : Prop :=
  ∀ {out : List Step} {opened : Nat}, addForest config groups made ts = .ok (out, opened) →
    Continues (stepsGroupIds made.reverse) groups opened (stepsGroupIds out.reverse)

def ConstructNumbers (groups : Nat) (made : List Step) (t : ParseTree) (c : Construct) : Prop :=
  ∀ {out : List Step} {opened : Nat}, addConstruct config groups made t c = .ok (out, opened) →
    Continues (stepsGroupIds made.reverse) groups opened (stepsGroupIds out.reverse)

def BranchesNumber (groups : Nat) (made : List (List Step)) (ts : List ParseTree) : Prop :=
  ∀ {out : List (List Step)} {opened : Nat}, addBranches config groups made ts = .ok (out, opened) →
    Continues (branchesGroupIds made.reverse) groups opened (branchesGroupIds out.reverse)

theorem numbers :
    (∀ groups made ts, ForestNumbers config groups made ts) ∧
      (∀ groups made t c, ConstructNumbers config groups made t c) ∧
      ∀ groups made ts, BranchesNumber config groups made ts := by
  apply addForest.mutual_induct config (ForestNumbers config) (ConstructNumbers config)
    (BranchesNumber config)
  case case1 =>
    intro groups made out opened h
    rw [addForest] at h
    cases h
    exact .refl _ _
  case case2 =>
    intro groups made t ts hnone ih out opened h
    exact ih (addForest_none hnone ▸ h)
  case case3 =>
    intro groups made t ts c hsome made' groups' hconstruct ihc ih out opened h
    rw [addForest_construct hsome, hconstruct] at h
    exact (ihc hconstruct).trans (ih h)
  case case4 =>
    intro groups made t ts c hsome e hconstruct ihc out opened h
    rw [addForest_construct hsome, hconstruct] at h
    cases h
  case case5 =>
    intro groups made t inner hinner body opened' hbody ih out opened h
    rw [addConstruct_group hinner, hbody] at h
    cases h
    rw [stepsGroupIds_reverse_cons, Step.groupIds]
    exact (ih hbody).cons.after _
  case case6 =>
    intro groups made t inner hinner e hbody ih out opened h
    rw [addConstruct_group hinner, hbody] at h
    cases h
  case case7 =>
    intro groups made t hnone out opened h
    rw [addConstruct_group_none hnone] at h
    cases h
    rw [stepsGroupIds_reverse_cons, Step.groupIds]
    exact (Continues.refl [] _).cons.after _
  case case8 =>
    intro groups made t branches opened' hbranches ih out opened h
    rw [addConstruct, hbranches] at h
    cases h
    rw [stepsGroupIds_reverse_cons, Step.groupIds]
    exact (ih hbranches).after _
  case case9 =>
    intro groups made t e hbranches ih out opened h
    rw [addConstruct, hbranches] at h
    cases h
  case case10 =>
    intro groups made t c hgroup halternatives made' hplain out opened h
    rw [addConstruct_plain hgroup halternatives, hplain] at h
    cases h
    rw [Step.groupIds_addPlain hplain]
    exact .refl _ _
  case case11 =>
    intro groups made t c hgroup halternatives e hplain out opened h
    rw [addConstruct_plain hgroup halternatives, hplain] at h
    cases h
  case case12 =>
    intro groups made out opened h
    rw [addBranches] at h
    cases h
    exact .refl _ _
  case case13 =>
    intro groups made t ts made' groups' hforest ihf ih out opened h
    rw [addBranches, hforest] at h
    have hnext := ih h
    rw [branchesGroupIds_reverse_cons] at hnext
    exact ((ihf hforest).after _).trans hnext
  case case14 =>
    intro groups made t ts e hforest ihf out opened h
    rw [addBranches, hforest] at h
    cases h

end ParseTree

namespace Program

theorem lt_groupCount {program : Program} (hids : program.groupIds = List.range program.groupCount)
    {id : Nat} (hid : id ∈ stepsGroupIds program.steps) : id < program.groupCount := by
  rwa [← groupIds, hids, List.mem_range] at hid

/-- The groups of a compiled program bear the numbers from zero on, in the order in which they open. -/
theorem groupIds_ofTree {config : Config} {tree : ParseTree} {program : Program}
    (h : ofTree config tree = .ok program) : program.groupIds = List.range program.groupCount := by
  rw [ofTree] at h
  cases hforest : ParseTree.addForest config 0 [] [tree] with
  | error e =>
    rw [hforest] at h
    cases h
  | ok made =>
    have hnumbers := (ParseTree.numbers config).1 0 [] [tree] hforest
    rw [hforest] at h
    dsimp only at h
    split at h
    · cases h
    · cases h
      rw [Program.groupIds, hnumbers.2, List.range_eq_range']
      rfl

end Program

/-! ### What a group is nested in -/

mutual

/-- The groups in a step that stands inside the groups `outer`, each with those around it, the innermost
first. -/
def Step.nestedGroups (outer : List Nat) : Step → List (List Nat × Nat)
  | .group id body => (outer, id) :: stepsNestedGroups (id :: outer) body
  | .repetition step _ _ => step.nestedGroups outer
  | .alternation branches => branchesNestedGroups outer branches
  | .literal _ | .oneOf _ | .backref _ | .source _ _ _ | .numeric _ _ => []

def stepsNestedGroups (outer : List Nat) : List Step → List (List Nat × Nat)
  | [] => []
  | step :: steps => step.nestedGroups outer ++ stepsNestedGroups outer steps

def branchesNestedGroups (outer : List Nat) : List (List Step) → List (List Nat × Nat)
  | [] => []
  | branch :: branches => stepsNestedGroups outer branch ++ branchesNestedGroups outer branches

end

mutual

theorem Step.map_snd_nestedGroups (outer : List Nat) (step : Step) :
    (step.nestedGroups outer).map Prod.snd = step.groupIds := by
  cases step with
  | group id body =>
    rw [Step.nestedGroups, Step.groupIds, List.map_cons, map_snd_stepsNestedGroups]
  | repetition step bounds construct =>
    rw [Step.nestedGroups, Step.groupIds, step.map_snd_nestedGroups]
  | alternation branches => rw [Step.nestedGroups, Step.groupIds, map_snd_branchesNestedGroups]
  | literal _ | oneOf _ | backref _ | source _ _ _ | numeric _ _ => rfl

theorem map_snd_stepsNestedGroups (outer : List Nat) (steps : List Step) :
    (stepsNestedGroups outer steps).map Prod.snd = stepsGroupIds steps := by
  cases steps with
  | nil => rfl
  | cons step steps =>
    rw [stepsNestedGroups, stepsGroupIds, List.map_append, step.map_snd_nestedGroups,
      map_snd_stepsNestedGroups]

theorem map_snd_branchesNestedGroups (outer : List Nat) (branches : List (List Step)) :
    (branchesNestedGroups outer branches).map Prod.snd = branchesGroupIds branches := by
  cases branches with
  | nil => rfl
  | cons branch branches =>
    rw [branchesNestedGroups, branchesGroupIds, List.map_append, map_snd_stepsNestedGroups,
      map_snd_branchesNestedGroups]

end

theorem mem_stepsNestedGroups {outer : List Nat} {step : Step} {steps : List Step}
    (h : step ∈ steps) {site : List Nat × Nat} (hsite : site ∈ step.nestedGroups outer) :
    site ∈ stepsNestedGroups outer steps := by
  induction steps with
  | nil => cases h
  | cons first steps ih =>
    rw [stepsNestedGroups, List.mem_append]
    cases h with
    | head => exact .inl hsite
    | tail _ h => exact .inr (ih h)

theorem mem_branchesNestedGroups {outer : List Nat} {branch : List Step} {branches : List (List Step)}
    (h : branch ∈ branches) {site : List Nat × Nat} (hsite : site ∈ stepsNestedGroups outer branch) :
    site ∈ branchesNestedGroups outer branches := by
  induction branches with
  | nil => cases h
  | cons first branches ih =>
    rw [branchesNestedGroups, List.mem_append]
    cases h with
    | head => exact .inl hsite
    | tail _ h => exact .inr (ih h)

end PatternText
