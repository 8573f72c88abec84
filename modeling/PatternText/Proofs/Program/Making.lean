import PatternText.Program.Compile

/-! What constructs make. A construct without steps of its own makes one simple step, or takes the step
made last as the operand of a repetition whose bounds were checked. Which of the two it does, and with
what, does not depend on the steps that were made before. -/

namespace PatternText

/-- Whether the step has no steps inside. -/
def Step.isSimple : Step → Bool
  | .group _ _ | .repetition _ _ _ | .alternation _ => false
  | .literal _ | .oneOf _ | .backref _ | .source _ _ _ | .numeric _ _ => true

/-- The constructs that are operands of quantifiers and hold no steps of their own. -/
def Construct.isOperand : Construct → Bool
  | literal | escaped | anyOf _ | inclusiveList | exclusiveList | backref | source | numeric => true
  | _ => false

namespace Step

variable {config : Config} {t : ParseTree} {c : Construct} {made out : List Step} {bounds : Bounds}
  {construct : String}

/-- What a construct without steps of its own makes of the steps before it, and would make of others. -/
inductive Makes (config : Config) (t : ParseTree) (c : Construct) (made : List Step) :
    List Step → Prop where
  | nothing (hother : c.isOperand = false) (hall : ∀ made, addPlain config made t c = .ok made) :
      Makes config t c made made
  | simple {step : Step} (hsimple : step.isSimple = true)
      (hall : ∀ made, addPlain config made t c = .ok (step :: made)) :
      Makes config t c made (step :: made)
  | repetition {operand : Step} {before : List Step} {bounds : Bounds} {construct : String}
      (hother : c.isOperand = false) (hmade : made = operand :: before)
      (hcheck : bounds.checkConstant config.upperBound construct = .ok ())
      (hall : ∀ operand made, addPlain config (operand :: made) t c =
        .ok (.repetition operand bounds construct :: made)) :
      Makes config t c made (.repetition operand bounds construct :: before)

theorem makes_of_repeatLast (hother : c.isOperand = false)
    (hcheck : bounds.checkConstant config.upperBound construct = .ok ())
    (hall : ∀ operand made, addPlain config (operand :: made) t c =
      .ok (.repetition operand bounds construct :: made))
    (h : repeatLast made bounds construct = .ok out) : Makes config t c made out := by
  cases made with
  | nil => cases h
  | cons operand before =>
    cases h
    exact .repetition hother rfl hcheck hall

theorem makes_of_repeatCounted (bounds : Bounds) (hother : c.isOperand = false)
    (hplain : ∀ made, addPlain config made t c = repeatCounted config made bounds construct)
    (h : addPlain config made t c = .ok out) : Makes config t c made out := by
  rw [hplain, repeatCounted] at h
  cases hcheck : bounds.checkConstant config.upperBound construct with
  | error cause =>
    rw [hcheck] at h
    cases h
  | ok u =>
    rw [hcheck] at h
    refine makes_of_repeatLast hother hcheck (fun operand made => ?_) h
    rw [hplain, repeatCounted, hcheck]
    rfl

theorem addPlain_numeric (made : List Step) : addPlain config made t .numeric =
    t.numberFormat.map fun format => numeric (t.expressions.headD default) format :: made := by
  rw [addPlain]
  cases t.numberFormat <;> rfl

theorem makes_of_addPlain (h : addPlain config made t c = .ok out) : Makes config t c made out := by
  cases c with
  | literal | escaped | anyOf _ | inclusiveList | exclusiveList | source =>
    cases h
    exact .simple rfl fun _ => rfl
  | group | alternatives =>
    cases h
    exact .nothing rfl fun _ => rfl
  | backref =>
    cases hplace : readWord? (t.textOf "DIGIT").toList with
    | none =>
      rw [addPlain, hplace] at h
      cases h
    | some place =>
      have hplain (made : List Step) : addPlain config made t .backref =
          .ok (backref place :: made) := by
        rw [addPlain, hplace]
      cases (hplain made).symm.trans h
      exact .simple rfl hplain
  | numeric =>
    have hplain := @addPlain_numeric config t
    cases hformat : t.numberFormat with
    | error e =>
      rw [hplain, hformat] at h
      cases h
    | ok format =>
      simp only [hformat] at hplain
      cases (hplain made).symm.trans h
      exact .simple rfl hplain
  | zeroOrMore | zeroOrOne | oneOrMore => exact makes_of_repeatLast rfl rfl (fun _ _ => rfl) h
  | exactly =>
    exact makes_of_repeatCounted (.exactly (t.expressions.headD default)) rfl (fun _ => rfl) h
  | atLeast =>
    exact makes_of_repeatCounted (.atLeast (t.expressions.headD default)) rfl (fun _ => rfl) h
  | between =>
    exact makes_of_repeatCounted
      (.between (t.expressions.headD default) (t.expressions.tail.headD default)) rfl
      (fun _ => rfl) h

end Step

end PatternText
