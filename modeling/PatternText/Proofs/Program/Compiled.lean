import PatternText.Proofs.Generation.Course
import PatternText.Proofs.Program.Shift

/-! Compiled steps. What the constructs without steps of their own keep, and groups, alternations and
repetitions share with the steps inside them, is true of every step anywhere in a compiled program. The
steps of a compiled program are simple ones, repetitions with checked bounds, and groups and alternations
of such steps; so the bounds of every loop that a generation enters were checked. -/

namespace PatternText

/-- A step that compilation can make. -/
inductive Step.Compiled (config : Config) : Step → Prop where
  | simple {step : Step} (h : step.isSimple = true) : Compiled config step
  | repetition {step : Step} {bounds : Bounds} {construct : String} (h : Compiled config step)
      (hcheck : bounds.checkConstant config.upperBound construct = .ok ()) :
      Compiled config (.repetition step bounds construct)
  | group {id : Nat} {body : List Step} (h : ∀ step ∈ body, Compiled config step) :
      Compiled config (.group id body)
  | alternation {branches : List (List Step)}
      (h : ∀ branch ∈ branches, ∀ step ∈ branch, Compiled config step) :
      Compiled config (.alternation branches)

/-- A property that groups and alternations have just when all steps inside them have it, and that
repetitions pass to their operands. -/
structure Step.Hereditary (P : Step → Prop) : Prop where
  group {id : Nat} {body : List Step} : P (.group id body) ↔ ∀ step ∈ body, P step
  alternation {branches : List (List Step)} :
    P (.alternation branches) ↔ ∀ branch ∈ branches, ∀ step ∈ branch, P step
  operand {step : Step} {bounds : Bounds} {construct : String}
    (h : P (.repetition step bounds construct)) : P step

/-- The constructs without steps of their own keep the property. -/
def Step.KeptByPlain (config : Config) (P : Step → Prop) : Prop :=
  ∀ {made out : List Step} {t : ParseTree} {c : Construct},
    addPlain config made t c = .ok out → (∀ step ∈ made, P step) → ∀ step ∈ out, P step

namespace ParseTree

section Kept

variable (config : Config) (P : Step → Prop)

def ForestKeeps (groups : Nat) (made : List Step) (ts : List ParseTree) : Prop :=
  ∀ {out : List Step} {opened : Nat}, addForest config groups made ts = .ok (out, opened) →
    (∀ step ∈ made, P step) → ∀ step ∈ out, P step

def ConstructKeeps (groups : Nat) (made : List Step) (t : ParseTree) (c : Construct) : Prop :=
  ∀ {out : List Step} {opened : Nat}, addConstruct config groups made t c = .ok (out, opened) →
    (∀ step ∈ made, P step) → ∀ step ∈ out, P step

def BranchesKeep (groups : Nat) (made : List (List Step)) (ts : List ParseTree) : Prop :=
  ∀ {out : List (List Step)} {opened : Nat}, addBranches config groups made ts = .ok (out, opened) →
    (∀ branch ∈ made, ∀ step ∈ branch, P step) → ∀ branch ∈ out, ∀ step ∈ branch, P step

variable {config P} (hP : Step.Hereditary P) (hplain : Step.KeptByPlain config P)
include hP hplain

/-- Compilation keeps a property that the constructs without steps of their own keep. -/
theorem keeps :
    (∀ groups made ts, ForestKeeps config P groups made ts) ∧
      (∀ groups made t c, ConstructKeeps config P groups made t c) ∧
      ∀ groups made ts, BranchesKeep config P groups made ts := by
  have hreverse {steps : List Step} (h : ∀ step ∈ steps, P step) : ∀ step ∈ steps.reverse, P step :=
    fun step hstep => h step (List.mem_reverse.1 hstep)
  apply addForest.mutual_induct config (ForestKeeps config P) (ConstructKeeps config P)
    (BranchesKeep config P)
  case case1 =>
    intro groups made out opened h hmade
    rw [addForest] at h
    cases h
    exact hmade
  case case2 =>
    intro groups made t ts hnone ih out opened h
    exact ih (addForest_none hnone ▸ h)
  case case3 =>
    intro groups made t ts c hsome made' groups' hconstruct ihc ih out opened h hmade
    rw [addForest_construct hsome, hconstruct] at h
    exact ih h (ihc hconstruct hmade)
  case case4 =>
    intro groups made t ts c hsome e hconstruct ihc out opened h
    rw [addForest_construct hsome, hconstruct] at h
    cases h
  case case5 =>
    intro groups made t inner hinner body opened' hbody ih out opened h hmade
    rw [addConstruct_group hinner, hbody] at h
    cases h
    have hgroup : P (.group groups body.reverse) :=
      hP.group.2 (hreverse (ih hbody (List.forall_mem_nil _)))
    exact List.forall_mem_cons.2 ⟨hgroup, hmade⟩
  case case6 =>
    intro groups made t inner hinner e hbody ih out opened h
    rw [addConstruct_group hinner, hbody] at h
    cases h
  case case7 =>
    intro groups made t hnone out opened h hmade
    rw [addConstruct_group_none hnone] at h
    cases h
    exact List.forall_mem_cons.2 ⟨hP.group.2 (List.forall_mem_nil _), hmade⟩
  case case8 =>
    intro groups made t branches opened' hbranches ih out opened h hmade
    rw [addConstruct, hbranches] at h
    cases h
    have hall := ih hbranches (List.forall_mem_nil _)
    have halternation : P (.alternation branches.reverse) :=
      hP.alternation.2 fun branch hbranch => hall branch (List.mem_reverse.1 hbranch)
    exact List.forall_mem_cons.2 ⟨halternation, hmade⟩
  case case9 =>
    intro groups made t e hbranches ih out opened h
    rw [addConstruct, hbranches] at h
    cases h
  case case10 =>
    intro groups made t c hgroup halternatives made' hmakes out opened h hmade
    rw [addConstruct_plain hgroup halternatives, hmakes] at h
    cases h
    exact hplain hmakes hmade
  case case11 =>
    intro groups made t c hgroup halternatives e hfails out opened h
    rw [addConstruct_plain hgroup halternatives, hfails] at h
    cases h
  case case12 =>
    intro groups made out opened h hmade
    rw [addBranches] at h
    cases h
    exact hmade
  case case13 =>
    intro groups made t ts made' groups' hforest ihf ih out opened h hmade
    rw [addBranches, hforest] at h
    have hbranch := hreverse (ihf hforest (List.forall_mem_nil _))
    exact ih h (List.forall_mem_cons.2 ⟨hbranch, hmade⟩)
  case case14 =>
    intro groups made t ts e hforest ihf out opened h
    rw [addBranches, hforest] at h
    cases h

end Kept

end ParseTree

namespace Program

variable {config : Config} {program : Program} {P : Step → Prop}

theorem forall_of_ofTree (hP : Step.Hereditary P) (hplain : Step.KeptByPlain config P)
    {tree : ParseTree} (h : ofTree config tree = .ok program) : ∀ step ∈ program.steps, P step := by
  rw [ofTree] at h
  cases hforest : ParseTree.addForest config 0 [] [tree] with
  | error e =>
    rw [hforest] at h
    cases h
  | ok made =>
    have hall := (ParseTree.keeps hP hplain).1 0 [] [tree] hforest (List.forall_mem_nil _)
    rw [hforest] at h
    dsimp only at h
    split at h
    · cases h
    · cases h
      exact fun step hstep => hall step (List.mem_reverse.1 hstep)

theorem forall_of_ofPattern (hP : Step.Hereditary P) (hplain : Step.KeptByPlain config P)
    {pattern : String} (h : ofPattern config pattern = .ok program) :
    ∀ step ∈ program.steps, P step := by
  rw [ofPattern] at h
  split at h
  next tree => exact forall_of_ofTree hP hplain h
  next => cases h

end Program

/-- What all steps of a program have is had wherever a step stands. -/
theorem Stands.inherits {P : Step → Prop} (hP : Step.Hereditary P) {program : List Step}
    {around : Around} {step : Step} (h : Stands program around step)
    (hprogram : ∀ step ∈ program, P step) : P step := by
  induction h with
  | outermost hmem => exact hprogram _ hmem
  | inGroup outer hmem ih => exact hP.group.1 ih _ hmem
  | inRound outer i ih => exact hP.operand ih
  | inBranch outer hbranch hmem ih => exact hP.alternation.1 ih _ hbranch _ hmem

/-! ### Simple steps -/

/-- Every simple step anywhere in the step has the property. -/
inductive Step.Throughout (P : Step → Prop) : Step → Prop where
  | simple {step : Step} (hsimple : step.isSimple = true) (h : P step) : Throughout P step
  | repetition {step : Step} {bounds : Bounds} {construct : String} (h : Throughout P step) :
      Throughout P (.repetition step bounds construct)
  | group {id : Nat} {body : List Step} (h : ∀ step ∈ body, Throughout P step) :
      Throughout P (.group id body)
  | alternation {branches : List (List Step)}
      (h : ∀ branch ∈ branches, ∀ step ∈ branch, Throughout P step) :
      Throughout P (.alternation branches)

theorem Step.hereditary_throughout (P : Step → Prop) : Step.Hereditary (Throughout P) where
  group := by
    refine ⟨fun h => ?_, .group⟩
    cases h with
    | simple h => cases h
    | group h => exact h
  alternation := by
    refine ⟨fun h => ?_, .alternation⟩
    cases h with
    | simple h => cases h
    | alternation h => exact h
  operand h := by
    cases h with
    | simple h => cases h
    | repetition h => exact h

/-- What every step has that a construct makes on its own, all simple steps have. -/
theorem Step.keptByPlain_throughout {config : Config} {P : Step → Prop}
    (hmakes : ∀ {t : ParseTree} {c : Construct} {step : Step},
      addPlain config [] t c = .ok [step] → P step) :
    Step.KeptByPlain config (Throughout P) := by
  intro made out t c h hmade
  cases Step.makes_of_addPlain h with
  | nothing => exact hmade
  | simple hsimple hall => exact List.forall_mem_cons.2 ⟨.simple hsimple (hmakes (hall [])), hmade⟩
  | repetition _ heq hcheck =>
    subst heq
    obtain ⟨hoperand, hbefore⟩ := List.forall_mem_cons.1 hmade
    exact List.forall_mem_cons.2 ⟨.repetition hoperand, hbefore⟩

/-! ### Checked bounds -/

theorem Step.hereditary_compiled (config : Config) : Step.Hereditary (Compiled config) where
  group := by
    refine ⟨fun h => ?_, .group⟩
    cases h with
    | simple h => cases h
    | group h => exact h
  alternation := by
    refine ⟨fun h => ?_, .alternation⟩
    cases h with
    | simple h => cases h
    | alternation h => exact h
  operand h := by
    cases h with
    | simple h => cases h
    | repetition h => exact h

theorem Step.keptByPlain_compiled (config : Config) : Step.KeptByPlain config (Compiled config) := by
  intro made out t c h hmade
  cases Step.makes_of_addPlain h with
  | nothing => exact hmade
  | simple hsimple => exact List.forall_mem_cons.2 ⟨.simple hsimple, hmade⟩
  | repetition _ heq hcheck =>
    subst heq
    obtain ⟨hoperand, hbefore⟩ := List.forall_mem_cons.1 hmade
    exact List.forall_mem_cons.2 ⟨.repetition hoperand hcheck, hbefore⟩

namespace Program

variable {config : Config} {program : Program}

theorem compiled_of_ofPattern {pattern : String} (h : ofPattern config pattern = .ok program) :
    ∀ step ∈ program.steps, step.Compiled config :=
  forall_of_ofPattern (Step.hereditary_compiled config) (Step.keptByPlain_compiled config) h

end Program

/-- The steps inside those that compilation makes are of the same kind. -/
theorem Stands.compiled {config : Config} {program : List Step} {around : Around} {step : Step}
    (h : Stands program around step) (hprogram : ∀ step ∈ program, step.Compiled config) :
    step.Compiled config :=
  h.inherits (Step.hereditary_compiled config) hprogram

/-- The bounds of every loop in a compiled program were checked. -/
theorem Stands.checked {config : Config} {program : List Step} {around : Around} {step : Step}
    {bounds : Bounds} {construct : String}
    (h : Stands program around (.repetition step bounds construct))
    (hprogram : ∀ step ∈ program, step.Compiled config) :
    bounds.checkConstant config.upperBound construct = .ok () := by
  cases h.compiled hprogram with
  | simple h => cases h
  | repetition _ hcheck => exact hcheck

end PatternText
