import PatternText.Proofs.Guarded.Building
import PatternText.Proofs.Guarded.Simulation
import PatternText.Proofs.Program.Compose

/-! Sessions without a breach. A guarded generator works out the values of the source groups when it gets
them, and cuts the mark of a base off such a group by bytes; for each generation it makes a row of slots,
one for each group of its program. Whatever the settings, the pattern and the actions, neither parsing nor
building nor any generation asks for what does not exist, and what comes out is what the plain
definitions give. -/

namespace PatternText

/-- What a generator answers to actions one after the other, and what becomes of it. -/
def Generator.session {σ : Type} [Chooser σ] [Seeded σ] (g : Generator σ) :
    List Action → List (Option (Except GenerationError String)) × Generator σ
  | [] => ([], g)
  | action :: actions =>
    let (answer, g) := g.perform action
    let (answers, g) := session g actions
    (answer :: answers, g)

namespace Guarded

/-- The base that the mark at the front of a number announces. -/
def markedBase? : List Char → Option Nat
  | ['0', mark] =>
    if mark = 'x' || mark = 'X' then some 16
    else if mark = 'o' || mark = 'O' then some 8
    else if mark = 'b' || mark = 'B' then some 2
    else none
  | _ => none

/-- The number that a source group counts as. The mark has two bytes, which need not be there. -/
def sourceValue (text : String) : Guarded Float :=
  let cs := trimBlank text.toList
  match (sliceTo? cs 2).bind markedBase? with
  | some base =>
    (require (.offset 2) (sliceFrom? cs 2)).map fun digits =>
      match readDigits? base digits with
      | some value => if value < UInt64.size then (UInt64.ofNat value).toFloat else 0
      | none => 0
  | none => .ok (((readFloat? cs).filter Float.isFinite).getD 0)

/-- A generator that keeps the values of its source groups. -/
structure Machine (σ : Type) extends Generator σ where
  sourceValues : Array Float

namespace Machine

variable {σ : Type}

/-- A new generator has no source groups. -/
def ofProgram [Seeded σ] (config : Config) (program : Program) (seed : UInt64) : Machine σ :=
  { Generator.ofProgram config program seed with sourceValues := #[] }

def setting (m : Machine σ) : Setting where
  upperBound := m.upperBound
  rangeIndex := m.rangeIndex
  sourceGroups := m.sourceGroups
  sourceValues := m.sourceValues

def setRange (m : Machine σ) (index : UInt64) (groups : Array (Option String)) :
    Guarded (Machine σ) := do
  let values ← groups.toList.mapM fun group => group.elim (.ok 0) sourceValue
  .ok { m.toGenerator.setRange index groups with sourceValues := values.toArray }

def generate [Chooser σ] (m : Machine σ) : Guarded (Except GenerationError String × Machine σ) := do
  let start : Context σ :=
    { chooser := m.chooser, firstGroups := m.firstGroups, groups := #[]
      slots := Array.replicate m.program.groupCount none, counters := #[] }
  let (result, c) ← evalSteps m.setting "" m.program.steps start
  .ok (result.mapError (⟨m.rangeIndex, ·⟩),
    { m with chooser := c.chooser, firstGroups := c.firstGroups })

def perform [Chooser σ] [Seeded σ] (m : Machine σ) :
    Action → Guarded (Option (Except GenerationError String) × Machine σ)
  | .generate => do
    let (result, m) ← m.generate
    .ok (some result, m)
  | .setRange index groups => do
    let m ← m.setRange index groups
    .ok (none, m)
  | .reseed seed => .ok (none, { m with toGenerator := m.toGenerator.reseed seed })
  | .resetFirst => .ok (none, { m with toGenerator := m.toGenerator.resetFirst })

def session [Chooser σ] [Seeded σ] (m : Machine σ) :
    List Action → Guarded (List (Option (Except GenerationError String)) × Machine σ)
  | [] => .ok ([], m)
  | action :: actions => do
    let (answer, m) ← m.perform action
    let (answers, m) ← session m actions
    .ok (answer :: answers, m)

end Machine

end Guarded

/-! ### Source values -/

theorem splitBasePrefix_zero_cons (mark : Char) (rest : List Char) :
    splitBasePrefix ('0' :: mark :: rest) = (Guarded.markedBase? ['0', mark]).map (·, rest) := by
  rw [splitBasePrefix, Guarded.markedBase?]
  split
  · rfl
  · split
    · rfl
    · split <;> rfl

theorem exists_of_splitBasePrefix_eq_some {cs rest : List Char} {base : Nat}
    (h : splitBasePrefix cs = some (base, rest)) :
    ∃ mark, cs = ['0', mark] ++ rest ∧ Guarded.markedBase? ['0', mark] = some base := by
  obtain ⟨mark, rest', rfl⟩ : ∃ mark rest', cs = '0' :: mark :: rest' := by
    unfold splitBasePrefix at h
    split at h
    · exact ⟨_, _, rfl⟩
    · cases h
  rw [splitBasePrefix_zero_cons] at h
  obtain ⟨base', hmarked, heq⟩ := Option.map_eq_some_iff.1 h
  cases heq
  exact ⟨mark, rfl, hmarked⟩

/-- A mark is two characters of one byte each. -/
theorem exists_of_markedBase?_eq_some {front : List Char} {base : Nat}
    (h : Guarded.markedBase? front = some base) :
    ∃ mark, front = ['0', mark] ∧ String.utf8Len ['0', mark] = 2 := by
  unfold Guarded.markedBase? at h
  split at h
  next mark =>
    have hmark : mark ∈ ['x', 'X', 'o', 'O', 'b', 'B'] := by
      by_contra hmark
      simp only [List.mem_cons, List.not_mem_nil, or_false, not_or] at hmark
      simp [hmark] at h
    have hlen : ['x', 'X', 'o', 'O', 'b', 'B'].all (String.utf8Len ['0', ·] == 2) = true := by decide
    exact ⟨mark, rfl, beq_iff_eq.1 (List.all_eq_true.1 hlen mark hmark)⟩
  next => cases h

/-- Behind a mark of two bytes a character begins or the text ends. -/
theorem guarded_sourceValue (text : String) :
    Guarded.sourceValue text = .ok (sourceValue text) := by
  rw [Guarded.sourceValue, sourceValue]
  generalize trimBlank text.toList = cs
  cases hbase : (sliceTo? cs 2).bind Guarded.markedBase? with
  | some base =>
    obtain ⟨front, hfront, hmarked⟩ := Option.bind_eq_some_iff.1 hbase
    obtain ⟨mark, rfl, hlen⟩ := exists_of_markedBase?_eq_some hmarked
    obtain ⟨rest, rfl, -⟩ := exists_of_sliceTo?_eq_some hfront
    have hrest := sliceFrom?_append ['0', mark] rest
    rw [hlen] at hrest
    dsimp only
    rw [require_some hrest, List.cons_append, List.cons_append, List.nil_append,
      splitBasePrefix_zero_cons, hmarked]
    rfl
  | none =>
    have hsplit : splitBasePrefix cs = none := by
      rw [Option.eq_none_iff_forall_ne_some]
      rintro ⟨base, rest⟩ hsome
      obtain ⟨mark, rfl, hmarked⟩ := exists_of_splitBasePrefix_eq_some hsome
      obtain ⟨_, heq, hlen⟩ := exists_of_markedBase?_eq_some hmarked
      cases heq
      have hfront := sliceTo?_append ['0', mark] rest
      rw [hlen] at hfront
      rw [hfront, Option.bind_some, hmarked] at hbase
      cases hbase
    rw [hsplit]

/-! ### Actions -/

namespace Guarded.Machine

variable {σ : Type}

/-- The values that are kept are those of the groups, and there is a slot for each group. -/
structure Ready (m : Machine σ) : Prop where
  setting : m.setting = m.toGenerator.setting
  ids : ∀ id ∈ stepsGroupIds m.program.steps, id < m.program.groupCount

theorem Ready.withChooser {m : Machine σ} (hready : m.Ready) (chooser : σ) :
    Ready { m with chooser } :=
  ⟨hready.setting, hready.ids⟩

theorem setRange_eq (m : Machine σ) (index : UInt64) (groups : Array (Option String)) :
    m.setRange index groups =
      .ok { m.toGenerator.setRange index groups with
        sourceValues := groups.map fun group => group.elim 0 PatternText.sourceValue } := by
  have hvalues : groups.toList.mapM (fun group => group.elim (.ok 0) Guarded.sourceValue) =
      .ok (groups.toList.map fun group => group.elim 0 PatternText.sourceValue) :=
    mapM_eq_ok fun group _ => by
      cases group with
      | none => rfl
      | some text => exact guarded_sourceValue text
  rw [Guarded.Machine.setRange, hvalues, ← Array.toList_map]
  rfl

theorem safe_generate [Chooser σ] {m : Machine σ} (hready : m.Ready) :
    Safe m.generate fun answered =>
      (answered.1, answered.2.toGenerator) = m.toGenerator.generate ∧ answered.2.Ready := by
  refine (safe_evalSteps m.setting m.program.steps hready.ids "" (.start ..)).bind
    fun ending h => safe_ok ⟨?_, hready.setting, hready.ids⟩
  rw [hready.setting] at h
  rw [Generator.generate]
  dsimp only
  rcases h.elim with ⟨text, p, c, he, rfl, hc, -⟩ | ⟨fault, p, c, he, rfl, hchooser, hfirst⟩
  · rw [he, hc.chooser, hc.firstGroups]
  · rw [he, hchooser, hfirst]

theorem safe_perform [Chooser σ] [Seeded σ] {m : Machine σ} (hready : m.Ready) (action : Action) :
    Safe (m.perform action) fun answered =>
      (answered.1, answered.2.toGenerator) = m.toGenerator.perform action ∧ answered.2.Ready := by
  cases action with
  | generate =>
    refine (safe_generate hready).bind fun answered h => safe_ok ⟨?_, h.2⟩
    rw [Generator.perform, ← h.1]
  | setRange index groups =>
    rw [Guarded.Machine.perform, setRange_eq]
    exact safe_ok ⟨rfl, rfl, hready.ids⟩
  | reseed seed => exact safe_ok ⟨rfl, hready.withChooser (Seeded.ofSeed seed)⟩
  | resetFirst => exact safe_ok ⟨rfl, hready.setting, hready.ids⟩

theorem safe_session [Chooser σ] [Seeded σ] {m : Machine σ} (hready : m.Ready) (actions : List Action) :
    Safe (m.session actions) fun answered =>
      (answered.1, answered.2.toGenerator) = m.toGenerator.session actions := by
  induction actions generalizing m with
  | nil => exact safe_ok rfl
  | cons action actions ih =>
    refine (safe_perform hready action).bind fun answered h => ?_
    refine (ih h.2).bind fun rest hrest => safe_ok ?_
    rw [Generator.session, ← h.1]
    dsimp only
    rw [← hrest]

/-- The groups of a compiled program are numbered below their count. -/
theorem ready_ofProgram [Seeded σ] {config : Config} {pattern : String} {program : Program}
    (h : Program.ofPattern config pattern = .ok program) (seed : UInt64) :
    (ofProgram config program seed : Machine σ).Ready := by
  have hids : program.groupIds = List.range program.groupCount := by
    rw [Program.ofPattern] at h
    split at h
    next tree => exact Program.groupIds_ofTree h
    next => cases h
  have hlt : ∀ id ∈ stepsGroupIds program.steps, id < program.groupCount :=
    fun id hid => Program.lt_groupCount hids hid
  refine ⟨?_, hlt⟩
  rw [setting, Generator.setting, ofProgram, Generator.ofProgram, Array.map_empty]

end Guarded.Machine

/-- Whatever the settings and the pattern, parsing cuts the pattern between its characters only, building
asks for children that are there, and both end as they do without looking. Whatever the actions, a
generator of the program looks up slots, captures and counters that exist, draws counts from intervals
that are not empty and has enough digits for the decimal places, and so it gives each of its answers, a
text or an error, unless it meets one of the two limits. -/
theorem no_breach (settings : Settings) (pattern : String) :
    (∀ place, (sliceFrom? pattern.toList place).isSome = true ↔
      String.Pos.Raw.IsValid pattern ⟨place⟩) ∧
    (∀ place, (sliceTo? pattern.toList place).isSome = true ↔
      String.Pos.Raw.IsValid pattern ⟨place⟩) ∧
    (∀ start stop, (slice? pattern.toList start stop).isSome = true ↔
      start ≤ stop ∧ String.Pos.Raw.IsValid pattern ⟨start⟩ ∧ String.Pos.Raw.IsValid pattern ⟨stop⟩) ∧
    Guarded.parse patternGrammar pattern = .ok (parse patternGrammar pattern) ∧
    Guarded.ofPattern (.ofSettings settings) pattern =
      .ok (Program.ofPattern (.ofSettings settings) pattern) ∧
    ∀ program, Program.ofPattern (.ofSettings settings) pattern = .ok program →
      ∀ (σ : Type) [Chooser σ] [Seeded σ] (seed : UInt64) (actions : List Action),
        let g : Generator σ := .ofProgram (.ofSettings settings) program seed
        let m : Guarded.Machine σ := .ofProgram (.ofSettings settings) program seed
        (∀ limit, m.session actions ≠ .error (.limit limit)) →
          ∃ m', m.session actions = .ok ((g.session actions).1, m') ∧
            m'.toGenerator = (g.session actions).2 := by
  refine ⟨isSome_sliceFrom?_iff pattern, isSome_sliceTo?_iff pattern, isSome_slice?_iff pattern,
    guarded_parsePattern pattern, guarded_ofPattern _ pattern, ?_⟩
  intro program hprogram σ _ _ seed actions g m hlimit
  have hready : m.Ready := Guarded.Machine.ready_ofProgram hprogram seed
  obtain ⟨⟨answers, m'⟩, hrun, hanswers⟩ := (Guarded.Machine.safe_session hready actions).exists_ok hlimit
  have hsession : (answers, m'.toGenerator) = g.session actions := hanswers
  refine ⟨m', ?_, ?_⟩
  · rw [← hsession]
    exact hrun
  · rw [← hsession]

/-- A group that is repeated at least once, and a reference to it. -/
def repeatedGroup : Program :=
  ⟨[.repetition (.group 0 [.literal "é"]) .oneOrMore "+", .backref 1], 1⟩

theorem repeatedGroup_compiled (config : Config) :
    Program.ofPattern config "(é)+\\1" = .ok repeatedGroup := by
  have hletter : Program.ofText config "é" = .ok ⟨[.literal "é"], 0⟩ :=
    Program.ofText_plain (c := 'é') (by decide)
  have hgroup : Program.ofText config "(é)" = .ok ⟨[.group 0 [.literal "é"]], 1⟩ :=
    (Program.ofText_parens hletter).trans (Program.limited_of_le (by decide))
  have hfactor : IsFactor "(é)" :=
    isFactor_base (.group (.term (.cons (.atom (.plain 'é' (by decide))) [] .nil)))
  have hloop : Program.ofText config "(é)+" =
      .ok ⟨[.repetition (.group 0 [.literal "é"]) .oneOrMore "+"], 1⟩ := by
    obtain ⟨step, hstep, hrepeat⟩ := Program.ofText_quantifier hgroup hfactor
    cases hstep
    exact (hrepeat .oneOrMore rfl).trans (Program.limited_of_le (by decide))
  have hbackref : Program.ofText config "\\1" = .ok ⟨[.backref 1], 0⟩ :=
    Program.ofText_backref (d := '1') (by decide) (by decide)
  have htext : "(é)+" ++ "\\1" = "(é)+\\1" := by decide
  rw [Program.ofPattern_eq, if_neg (by decide), ← htext]
  exact Program.ofText_append hloop hbackref (Program.not_topLevelBar hloop rfl)
    (Program.not_topLevelBar hbackref rfl)

/-- Two generations, the first one after a range with a marked number, the other one reseeded. -/
def twoGenerations : List Action :=
  [.setRange 3 #[some " 0x1F ", none], .generate, .reseed 7, .resetFirst, .generate]

/-- With nothing allowed by "without limit" the loop still has one round. -/
theorem repeatedGroup_no_breach :
    Program.ofPattern (.ofSettings { upperBound := 0 }) "(é)+\\1" = .ok repeatedGroup ∧
    (∀ limit, (Guarded.Machine.ofProgram (.ofSettings { upperBound := 0 }) repeatedGroup 1).session
      twoGenerations ≠ .error (.limit limit)) ∧
    ∃ m', (Guarded.Machine.ofProgram (.ofSettings { upperBound := 0 }) repeatedGroup 1).session
        twoGenerations =
      .ok (((Generator.ofProgram (.ofSettings { upperBound := 0 }) repeatedGroup 1).session
        twoGenerations).1, m') ∧
      m'.toGenerator = ((Generator.ofProgram (.ofSettings { upperBound := 0 }) repeatedGroup 1).session
        twoGenerations).2 := by
  have hcompiled := repeatedGroup_compiled (.ofSettings { upperBound := 0 })
  have hok : ((Guarded.Machine.ofProgram (.ofSettings { upperBound := 0 }) repeatedGroup 1).session
      twoGenerations).isOk = true := by decide +kernel
  have hlimit : ∀ limit, (Guarded.Machine.ofProgram (.ofSettings { upperBound := 0 }) repeatedGroup
      1).session twoGenerations ≠ .error (.limit limit) := by
    intro limit h
    rw [h] at hok
    cases hok
  exact ⟨hcompiled, hlimit,
    (no_breach { upperBound := 0 } "(é)+\\1").2.2.2.2.2 repeatedGroup hcompiled WordSource 1
      twoGenerations hlimit⟩

end PatternText
