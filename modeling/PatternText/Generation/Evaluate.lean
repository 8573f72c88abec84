import PatternText.Generation.Fault
import PatternText.Random.Chooser

/-! The evaluation of steps. What stays fixed while a range is generated is its setting; what changes
is the progress: the random source, the captured groups and the groups remembered of the first range.
Loop counters are passed down to the steps inside a loop and nowhere else, so the bounds of a loop see
those around it only. A fault ends the evaluation and leaves the progress as it was there. -/

namespace PatternText

/-- What a range provides for its generation. -/
structure Setting where
  upperBound : UInt64
  rangeIndex : UInt64
  /-- The groups of the source text, none for one that took no part in the match. -/
  sourceGroups : Array (Option String)
  /-- The numbers that the source groups count as. -/
  sourceValues : Array Float

/-- What generation leaves behind so far. -/
structure Progress (σ : Type) where
  chooser : σ
  /-- The groups in the order in which they were first entered, with their last text. -/
  captures : Array (Nat × String)
  /-- The source groups of the first range that asked for them. -/
  firstGroups : Option (Array (Option String))

/-- A closed range of repetition counts. -/
structure CountRange where
  lo : UInt64
  hi : UInt64
  le : lo ≤ hi

/-- A result, and the progress after it. -/
abbrev Evaluation (σ : Type) := Except Fault String × Progress σ

namespace Progress

variable {σ : Type}

/-- A group is entered: from the first time on it has a place, with an empty text at first. -/
def enter (p : Progress σ) (id : Nat) : Progress σ :=
  if p.captures.any (·.1 == id) then p else { p with captures := p.captures.push (id, "") }

/-- A group is completed with a text. -/
def complete (p : Progress σ) (id : Nat) (text : String) : Progress σ :=
  { p with captures := p.captures.map fun c => if c.1 == id then (id, text) else c }

/-- The text of the group entered at this place, counted from one. -/
def captured? (p : Progress σ) (place : UInt64) : Option String :=
  if place = 0 then none else (p.captures[place.toNat - 1]?).map Prod.snd

end Progress

/-- The text without the front, if it starts with it. -/
def stripFront (front text : String) : String :=
  if front.toList.isPrefixOf text.toList then String.ofList (text.toList.drop front.length) else text

/-- The group at a place, unless it does not exist or took no part. -/
def groupAt? (groups : Array (Option String)) (place : Option UInt64) : Option String :=
  place.bind fun k => (groups[k.toNat]?).join

namespace Setting

/-- What an expression can refer to inside loops with these counters. -/
def scope (s : Setting) (counters : List UInt64) : Scope where
  counters := counters
  rangeIndex := s.rangeIndex
  sourceValues := s.sourceValues

/-- The count that an expression stands for: cut to a whole number, and never below zero. -/
def count (s : Setting) (counters : List UInt64) (e : Expression) (construct : String) :
    Except Fault UInt64 :=
  match e.value (s.scope counters) with
  | .error fault => .error fault
  | .ok x =>
    match Exact.ofFloat? x with
    | some n => if n.isBelowZero then .error (.invalidCount construct x) else .ok n.toWord
    | none => .error (.nonNumeric e.text)

/-- The counts that bounds allow. -/
def countRange (s : Setting) (counters : List UInt64) (construct : String) :
    Bounds → Except Fault CountRange
  | .zeroOrMore => .ok ⟨0, s.upperBound, UInt64.zero_le⟩
  | .zeroOrOne => .ok ⟨0, 1, UInt64.zero_le⟩
  | .oneOrMore =>
    if h : 1 ≤ s.upperBound then .ok ⟨1, s.upperBound, h⟩ else .ok ⟨1, 1, UInt64.le_refl 1⟩
  | .exactly n =>
    match s.count counters n construct with
    | .error fault => .error fault
    | .ok n => .ok ⟨n, n, UInt64.le_refl n⟩
  | .atLeast n =>
    match s.count counters n construct with
    | .error fault => .error fault
    | .ok n =>
      if h : n ≤ s.upperBound then .ok ⟨n, s.upperBound, h⟩
      else .error (.number (.minimumAboveUpperBound n s.upperBound construct))
  | .between n m =>
    match s.count counters n construct with
    | .error fault => .error fault
    | .ok n =>
      match s.count counters m construct with
      | .error fault => .error fault
      | .ok m =>
        if h : n ≤ m then .ok ⟨n, m, h⟩ else .error (.number (.boundsOutOfOrder construct))

/-- The groups of the first range, remembered now if this is that range or none has been yet. -/
def rememberFirst {σ : Type} (s : Setting) (p : Progress σ) : Progress σ :=
  if s.rangeIndex = 0 ∨ p.firstGroups.isNone then { p with firstGroups := some s.sourceGroups } else p

/-- The text of a source reference. A group of the first range counts only if it is not empty. -/
def sourceText {σ : Type} (s : Setting) (counters : List UInt64) (place : Expression)
    (modifier : Option FirstModifier) (construct : String) (p : Progress σ) : Evaluation σ :=
  match place.value (s.scope counters) with
  | .error fault => (.error fault, p)
  | .ok x =>
    let at? := indexValue? x
    let p := if modifier.isSome then s.rememberFirst p else p
    let first := (groupAt? (p.firstGroups.getD #[]) at?).filter fun text => !text.isEmpty
    match groupAt? s.sourceGroups at? with
    | none => (.error (.unknownSourceGroup construct (plainText x)), p)
    | some current =>
      match modifier, first with
      | some .first, some first => (.ok first, p)
      | some .minusFirst, some first => (.ok (stripFront first current), p)
      | _, _ => (.ok current, p)

end Setting

variable {σ : Type}

/-- The joined texts of a loop body over `count` more counters from `i` on, after those before. -/
def joinLoop (body : UInt64 → Progress σ → Evaluation σ) (acc : String) (i : UInt64) :
    Nat → Progress σ → Evaluation σ
  | 0, p => (.ok acc, p)
  | count + 1, p =>
    match body i p with
    | (.ok text, p) => joinLoop body (acc ++ text) (i + 1) count p
    | (.error fault, p) => (.error fault, p)

mutual

/-- The text of a step inside loops with these counters. -/
def evalStep [Chooser σ] (s : Setting) (counters : List UInt64) : Step → Progress σ → Evaluation σ
  | .literal text, p => (.ok text, p)
  | .oneOf chars, p =>
    let (text, chooser) := chars.drawText p.chooser
    (.ok text, { p with chooser })
  | .group id body, p =>
    match evalSteps s counters "" body (p.enter id) with
    | (.ok text, p) => (.ok text, p.complete id text)
    | (.error fault, p) => (.error fault, p)
  | .backref place, p =>
    match p.captured? place with
    | some text => (.ok text, p)
    | none => (.error (.unknownGroup place), p)
  | .repetition step bounds construct, p =>
    match s.countRange counters construct bounds with
    | .error fault => (.error fault, p)
    | .ok r =>
      let (count, chooser) := Chooser.count r.lo r.hi r.le p.chooser
      joinLoop (fun i p => evalStep s (i :: counters) step p) "" 0 count.val.toNat { p with chooser }
  | .source place modifier construct, p => s.sourceText counters place modifier construct p
  | .numeric value format, p =>
    match value.value (s.scope counters) with
    | .ok x => (.ok (format.apply x), p)
    | .error fault => (.error fault, p)
  | .alternation branches, p =>
    if h : 0 < branches.length then
      let (i, chooser) := Chooser.index branches.length h p.chooser
      evalBranch s counters branches i { p with chooser }
    else (.ok "", p)

/-- The texts of steps, one after the other, after those before. -/
def evalSteps [Chooser σ] (s : Setting) (counters : List UInt64) (acc : String) :
    List Step → Progress σ → Evaluation σ
  | [], p => (.ok acc, p)
  | step :: steps, p =>
    match evalStep s counters step p with
    | (.ok text, p) => evalSteps s counters (acc ++ text) steps p
    | (.error fault, p) => (.error fault, p)

/-- The text of the branch at a place. -/
def evalBranch [Chooser σ] (s : Setting) (counters : List UInt64) :
    List (List Step) → Nat → Progress σ → Evaluation σ
  | [], _, p => (.ok "", p)
  | branch :: _, 0, p => evalSteps s counters "" branch p
  | _ :: branches, i + 1, p => evalBranch s counters branches i p

end

/-- A branch that exists is evaluated as the steps in it. -/
theorem evalBranch_eq_evalSteps [Chooser σ] (s : Setting) (counters : List UInt64)
    {branches : List (List Step)} {i : Nat} (hi : i < branches.length) (p : Progress σ) :
    evalBranch s counters branches i p = evalSteps s counters "" branches[i] p := by
  induction branches generalizing i with
  | nil => exact absurd hi (Nat.not_lt_zero i)
  | cons branch branches ih =>
    cases i with
    | zero => simp [evalBranch]
    | succ i => simpa [evalBranch] using ih (Nat.lt_of_succ_lt_succ hi)

/-- Only the number of branches matters for the choice. -/
theorem evalStep_alternation [Chooser σ] (s : Setting) {branches : List (List Step)} {n : Nat}
    (hlength : branches.length = n) (hpos : 0 < n) (counters : List UInt64) (p : Progress σ) :
    evalStep s counters (.alternation branches) p =
      evalBranch s counters branches (Chooser.index n hpos p.chooser).1
        { p with chooser := (Chooser.index n hpos p.chooser).2 } := by
  subst hlength
  rw [evalStep, dif_pos hpos]

end PatternText
