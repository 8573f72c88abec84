import PatternText.Generation.Generator
import PatternText.Proofs.Guarded.Digits

/-! Generation on mutable data. Captured texts lie in a row of their own, and a table tells the slot in it
that a group has claimed; the counters of all loops around a place are a stack with the outermost first;
the counts of a repetition are two numbers that are drawn between. Every access to the row, the table and
the stack is guarded, and so is every draw. -/

namespace PatternText

namespace Guarded

/-- What generation reads and changes. -/
structure Context (σ : Type) where
  chooser : σ
  firstGroups : Option (Array (Option String))
  /-- The captured texts in the order in which their groups were first entered. -/
  groups : Array String
  /-- The slot of each group, none before it is entered. -/
  slots : Array (Option Nat)
  /-- The counters of the enclosing loops, the outermost first. -/
  counters : Array UInt64

/-- A result, and what is left after it. -/
abbrev Ending (σ : Type) := Except Fault String × Context σ

/-! ### Values -/

section

variable (s : Setting) (counters : Array UInt64)

/-- The counter so many loops outwards, if there are so many. One more than `level` is to be a number of
counters. -/
def outerCounter (level : UInt64) : Guarded (Option Float) :=
  if h : level.toNat + 1 = UInt64.size then .error (.limit (.levels level h))
  else if level.toNat + 1 ≤ counters.size then
    let place := counters.size - (level.toNat + 1)
    (require (.counter place) counters[place]?).map fun counter => some counter.toFloat
  else .ok none

def evalExpr : Expr → Guarded (Option Float)
  | .number x => .ok (some x)
  | .counter => .ok (some (counters.back?.getD s.rangeIndex).toFloat)
  | .outerCounter e => do
    match (← evalExpr e).bind indexValue? with
    | some level => outerCounter counters level
    | none => .ok none
  | .sourceCount => .ok (some (UInt64.ofNat s.sourceValues.size).toFloat)
  | .sourceValue e => do
    let place := (← evalExpr e).bind indexValue?
    .ok (place.bind fun place => s.sourceValues[place.toNat]?)
  | .negate e => do
    let x ← evalExpr e
    .ok (x.map fun x => -x)
  | .binary op l r => do
    match ← evalExpr l with
    | none => .ok none
    | some x =>
      let y ← evalExpr r
      .ok (y.map (op.apply x))

/-- The finite value of a written expression. -/
def value (e : Expression) : Guarded (Except Fault Float) :=
  match e.parsed with
  | .error cause => .ok (.error (.badExpression e.text cause))
  | .ok tree => do
    match (← evalExpr s counters tree).filter Float.isFinite with
    | some x => .ok (.ok x)
    | none => .ok (.error (.nonNumeric e.text))

/-- The count that an expression stands for. -/
def count (e : Expression) (construct : String) : Guarded (Except Fault UInt64) := do
  let x ← value s counters e
  .ok (x.bind fun x =>
    match Exact.ofFloat? x with
    | some n => if n.isBelowZero then .error (.invalidCount construct x) else .ok n.toWord
    | none => .error (.nonNumeric e.text))

/-- The least and the greatest count that bounds allow. -/
def countBounds (construct : String) : Bounds → Guarded (Except Fault (UInt64 × UInt64))
  | .zeroOrMore => .ok (.ok (0, s.upperBound))
  | .zeroOrOne => .ok (.ok (0, 1))
  | .oneOrMore => .ok (.ok (1, if 1 ≤ s.upperBound then s.upperBound else 1))
  | .exactly n => do
    let n ← count s counters n construct
    .ok (n.map fun n => (n, n))
  | .atLeast n => do
    let n ← count s counters n construct
    .ok (n.bind fun n =>
      if s.upperBound < n then .error (.number (.minimumAboveUpperBound n s.upperBound construct))
      else .ok (n, s.upperBound))
  | .between n m => do
    match ← count s counters n construct with
    | .error fault => .ok (.error fault)
    | .ok n =>
      let m ← count s counters m construct
      .ok (m.bind fun m => if m < n then .error (.number (.boundsOutOfOrder construct)) else .ok (n, m))

end

/-! ### Steps -/

section

variable {σ : Type}

/-- A count between two numbers, of which the first must not be the greater one. -/
def sample [Chooser σ] (lo hi : UInt64) (chooser : σ) : Guarded (UInt64 × σ) :=
  if h : lo ≤ hi then
    let (count, chooser) := Chooser.count lo hi h chooser
    .ok (count.val, chooser)
  else .error (.breach (.interval lo hi))

namespace Context

/-- The slot of a group, claimed now if it has none. -/
def enter (id : Nat) (c : Context σ) : Guarded (Nat × Context σ) := do
  match ← require (.slot id) c.slots[id]? with
  | some slot => .ok (slot, c)
  | none =>
    let slot := c.groups.size
    .ok (slot, { c with groups := c.groups.push "", slots := c.slots.setIfInBounds id (some slot) })

/-- The text of a group is put into its slot. -/
def complete (slot : Nat) (text : String) (c : Context σ) : Guarded (Context σ) :=
  if h : slot < c.groups.size then .ok { c with groups := c.groups.set slot text h }
  else .error (.breach (.capture slot))

def push (c : Context σ) : Context σ := { c with counters := c.counters.push 0 }

/-- The innermost counter is set. -/
def setTop (i : UInt64) (c : Context σ) : Context σ :=
  { c with counters := c.counters.setIfInBounds (c.counters.size - 1) i }

def pop (c : Context σ) : Context σ := { c with counters := c.counters.pop }

/-- The groups of the first range, remembered now if this is that range or none has been yet. -/
def rememberFirst (s : Setting) (c : Context σ) : Context σ :=
  if s.rangeIndex = 0 ∨ c.firstGroups.isNone then { c with firstGroups := some s.sourceGroups } else c

end Context

/-- The text of a source reference. -/
def sourceText (s : Setting) (place : Expression) (modifier : Option FirstModifier)
    (construct : String) (c : Context σ) : Guarded (Ending σ) := do
  match ← value s c.counters place with
  | .error fault => .ok (.error fault, c)
  | .ok x =>
    let at? := indexValue? x
    let c := if modifier.isSome then c.rememberFirst s else c
    let first := (groupAt? (c.firstGroups.getD #[]) at?).filter fun text => !text.isEmpty
    match groupAt? s.sourceGroups at? with
    | none => .ok (.error (.unknownSourceGroup construct (plainText x)), c)
    | some current =>
      match modifier, first with
      | some .first, some first => .ok (.ok first, c)
      | some .minusFirst, some first => .ok (.ok (stripFront first current), c)
      | _, _ => .ok (.ok current, c)

/-- The joined texts of `count` more rounds of a loop, the first one with the counter `i`. -/
def joinLoop (body : Context σ → Guarded (Ending σ)) (acc : String) (i : UInt64) :
    Nat → Context σ → Guarded (Ending σ)
  | 0, c => .ok (.ok acc, c)
  | count + 1, c => do
    match ← body (c.setTop i) with
    | (.ok text, c) => joinLoop body (acc ++ text) (i + 1) count c
    | (.error fault, c) => .ok (.error fault, c)

mutual

def evalStep [Chooser σ] (s : Setting) : Step → Context σ → Guarded (Ending σ)
  | .literal text, c => .ok (.ok text, c)
  | .oneOf chars, c =>
    let (text, chooser) := chars.drawText c.chooser
    .ok (.ok text, { c with chooser })
  | .group id body, c => do
    let (slot, c) ← c.enter id
    match ← evalSteps s "" body c with
    | (.ok text, c) =>
      let c ← c.complete slot text
      .ok (.ok text, c)
    | (.error fault, c) => .ok (.error fault, c)
  | .backref place, c =>
    match if place = 0 then none else c.groups[place.toNat - 1]? with
    | some text => .ok (.ok text, c)
    | none => .ok (.error (.unknownGroup place), c)
  | .repetition step bounds construct, c => do
    match ← countBounds s c.counters construct bounds with
    | .error fault => .ok (.error fault, c)
    | .ok (lo, hi) =>
      let (count, chooser) ← sample lo hi c.chooser
      match ← joinLoop (evalStep s step) "" 0 count.toNat { c with chooser }.push with
      | (.ok text, c) => .ok (.ok text, c.pop)
      | (.error fault, c) => .ok (.error fault, c)
  | .source place modifier construct, c => sourceText s place modifier construct c
  | .numeric e format, c => do
    match ← value s c.counters e with
    | .ok x =>
      let text ← applyFormat format x
      .ok (.ok text, c)
    | .error fault => .ok (.error fault, c)
  | .alternation branches, c =>
    if h : 0 < branches.length then
      let (i, chooser) := Chooser.index branches.length h c.chooser
      evalBranch s branches i { c with chooser }
    else .ok (.ok "", c)

def evalSteps [Chooser σ] (s : Setting) (acc : String) : List Step → Context σ → Guarded (Ending σ)
  | [], c => .ok (.ok acc, c)
  | step :: steps, c => do
    match ← evalStep s step c with
    | (.ok text, c) => evalSteps s (acc ++ text) steps c
    | (.error fault, c) => .ok (.error fault, c)

def evalBranch [Chooser σ] (s : Setting) : List (List Step) → Nat → Context σ → Guarded (Ending σ)
  | [], _, c => .ok (.ok "", c)
  | branch :: _, 0, c => evalSteps s "" branch c
  | _ :: branches, i + 1, c => evalBranch s branches i c

end

end

end Guarded

/-! ### Values are safe -/

section

variable (s : Setting)

/-- The loops outwards are counted from the end of the stack. -/
theorem safe_outerCounter (counters : Array UInt64) (level : UInt64) :
    Safe (Guarded.outerCounter counters level)
      (· = ((counters.toList.reverse)[level.toNat]?).map UInt64.toFloat) := by
  unfold Guarded.outerCounter
  split
  next => trivial
  next =>
    split
    next hle =>
      have hlt : counters.size - (level.toNat + 1) < counters.size := by omega
      dsimp only
      rw [require_some (Array.getElem?_eq_getElem hlt)]
      refine safe_ok ?_
      rw [List.getElem?_reverse (by rw [Array.length_toList]; omega), Array.length_toList,
        Array.getElem?_toList, show counters.size - 1 - level.toNat = counters.size - (level.toNat + 1)
          by omega, Array.getElem?_eq_getElem hlt]
      rfl
    next hnot =>
      refine safe_ok ?_
      rw [List.getElem?_eq_none (by rw [List.length_reverse, Array.length_toList]; omega)]
      rfl

theorem safe_evalExpr (counters : Array UInt64) (e : Expr) :
    Safe (Guarded.evalExpr s counters e) (· = e.eval? (s.scope counters.toList.reverse)) := by
  induction e with
  | number x => exact safe_ok rfl
  | counter =>
    refine safe_ok ?_
    have hback : counters.back? = counters.toList.reverse.head? := by
      rw [List.head?_reverse, ← Array.getLast?_toList]
    rw [hback, Expr.eval?, Setting.scope]
    cases counters.toList.reverse <;> rfl
  | sourceCount => exact safe_ok rfl
  | outerCounter e ih =>
    refine ih.bind fun x hx => ?_
    subst hx
    rw [Expr.eval?]
    cases e.eval? (s.scope counters.toList.reverse) with
    | none => exact safe_ok rfl
    | some x =>
      simp only [bind, Option.bind]
      cases indexValue? x with
      | none => exact safe_ok rfl
      | some level => exact safe_outerCounter counters level
  | sourceValue e ih =>
    refine ih.bind fun x hx => safe_ok ?_
    subst hx
    rw [Expr.eval?]
    cases e.eval? (s.scope counters.toList.reverse) with
    | none => rfl
    | some x =>
      simp only [bind, Option.bind]
      cases indexValue? x <;> rfl
  | negate e ih =>
    refine ih.bind fun x hx => safe_ok ?_
    subst hx
    rfl
  | binary op l r ihl ihr =>
    refine ihl.bind fun x hx => ?_
    subst hx
    rw [Expr.eval?]
    cases l.eval? (s.scope counters.toList.reverse) with
    | none => exact safe_ok rfl
    | some x =>
      refine ihr.bind fun y hy => safe_ok ?_
      subst hy
      cases r.eval? (s.scope counters.toList.reverse) <;> rfl

theorem safe_value (counters : Array UInt64) (e : Expression) :
    Safe (Guarded.value s counters e) (· = e.value (s.scope counters.toList.reverse)) := by
  unfold Guarded.value Expression.value Expression.eval
  cases e.parsed with
  | error cause => exact safe_ok rfl
  | ok tree =>
    refine (safe_evalExpr s counters tree).bind fun x hx => ?_
    subst hx
    dsimp only
    rw [Expr.evalFinite?]
    cases (tree.eval? (s.scope counters.toList.reverse)).filter Float.isFinite <;> exact safe_ok rfl

theorem safe_count (counters : Array UInt64) (e : Expression) (construct : String) :
    Safe (Guarded.count s counters e construct) (· = s.count counters.toList.reverse e construct) := by
  refine (safe_value s counters e).bind fun x hx => safe_ok ?_
  subst hx
  rw [Setting.count]
  cases e.value (s.scope counters.toList.reverse) <;> rfl

/-- The bounds are those of an interval that is not empty. -/
theorem safe_countBounds (counters : Array UInt64) (construct : String) (bounds : Bounds) :
    Safe (Guarded.countBounds s counters construct bounds)
      (· = (s.countRange counters.toList.reverse construct bounds).map fun r => (r.lo, r.hi)) := by
  cases bounds with
  | zeroOrMore | zeroOrOne => exact safe_ok rfl
  | oneOrMore =>
    refine safe_ok ?_
    rw [Setting.countRange]
    by_cases h : 1 ≤ s.upperBound
    · rw [if_pos h, dif_pos h]
      rfl
    · rw [if_neg h, dif_neg h]
      rfl
  | exactly n =>
    refine (safe_count s counters n construct).bind fun n' hn => safe_ok ?_
    subst hn
    rw [Setting.countRange]
    cases s.count counters.toList.reverse n construct <;> rfl
  | atLeast n =>
    refine (safe_count s counters n construct).bind fun n' hn => safe_ok ?_
    subst hn
    rw [Setting.countRange]
    cases s.count counters.toList.reverse n construct with
    | error fault => rfl
    | ok n =>
      show (if s.upperBound < n then _ else _) = _
      by_cases h : n ≤ s.upperBound
      · simp only [h, dif_pos, if_neg (UInt64.not_lt.2 h)]
        rfl
      · simp only [h, dif_neg, if_pos (UInt64.not_le.1 h), not_false_eq_true]
        rfl
  | between n m =>
    refine (safe_count s counters n construct).bind fun n' hn => ?_
    subst hn
    rw [Setting.countRange]
    cases s.count counters.toList.reverse n construct with
    | error fault => exact safe_ok rfl
    | ok n =>
      refine (safe_count s counters m construct).bind fun m' hm => safe_ok ?_
      subst hm
      dsimp only
      cases s.count counters.toList.reverse m construct with
      | error fault => rfl
      | ok m =>
        show (if m < n then _ else _) = _
        by_cases h : n ≤ m
        · simp only [h, dif_pos, if_neg (UInt64.not_lt.2 h)]
          rfl
        · simp only [h, dif_neg, if_pos (UInt64.not_le.1 h), not_false_eq_true]
          rfl

end

end PatternText
