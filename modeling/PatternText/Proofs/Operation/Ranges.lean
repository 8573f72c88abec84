import PatternText.Operation

/-! The ranges of an operation, one by one. What an operation makes of its range `k` is what the
generator yields that the ranges before left, once it is set to this range. Neither the program nor
what stands for "without limit" changes on the way. -/

namespace PatternText

namespace Generator

variable {σ : Type}

/-- The outcomes of ranges with these originals, from the range `index` on. -/
def outcomesFrom [Chooser σ] (groupsOf : String → Array (Option String)) (index : UInt64) :
    List String → Generator σ → List RangeOutcome
  | [], _ => []
  | original :: originals, g =>
    let (result, g) := (g.setRange index (groupsOf original)).generate
    { index, result } :: outcomesFrom groupsOf (index + 1) originals g

/-- The generator after ranges with these originals, from the range `index` on. -/
def afterRanges [Chooser σ] (groupsOf : String → Array (Option String)) (index : UInt64) :
    List String → Generator σ → Generator σ
  | [], g => g
  | original :: originals, g =>
    afterRanges groupsOf (index + 1) originals (g.setRange index (groupsOf original)).generate.2

/-- The generator of an operation as it stands at range `k`, of which this is the original. -/
def atRange [Chooser σ] (g : Generator σ) (groupsOf : String → Array (Option String))
    (originals : List String) (k : Nat) (original : String) : Generator σ :=
  (g.resetFirst.afterRanges groupsOf 0 (originals.take k)).setRange (UInt64.ofNat k)
    (groupsOf original)

section

variable [Chooser σ] (groupsOf : String → Array (Option String))

/-- A fault is reported with the range that was generated. -/
theorem rangeIndex_of_generate_eq_error {g : Generator σ} {e : GenerationError}
    (h : g.generate.1 = .error e) : e.rangeIndex = g.rangeIndex := by
  change (evalSteps g.setting [] "" g.program.steps
    (⟨g.chooser, #[], g.firstGroups⟩ : Progress σ)).1.mapError _ = .error e at h
  cases hresult : (evalSteps g.setting [] "" g.program.steps
      (⟨g.chooser, #[], g.firstGroups⟩ : Progress σ)).1 with
  | ok text =>
    rw [hresult] at h
    cases h
  | error fault =>
    rw [hresult] at h
    cases h
    rfl

theorem runFrom_fst (done : List RangeOutcome) (index : UInt64) (originals : List String)
    (g : Generator σ) :
    (g.runFrom groupsOf done index originals).1 =
      done.reverse ++ g.outcomesFrom groupsOf index originals := by
  induction originals generalizing done index g with
  | nil => exact (List.append_nil _).symm
  | cons original originals ih =>
    rw [runFrom, outcomesFrom, ih, List.reverse_cons, List.append_assoc]
    rfl

theorem length_outcomesFrom (index : UInt64) (originals : List String) (g : Generator σ) :
    (g.outcomesFrom groupsOf index originals).length = originals.length := by
  induction originals generalizing index g with
  | nil => rfl
  | cons original originals ih =>
    rw [outcomesFrom, List.length_cons, List.length_cons, ih]

/-- Places are counted in words. -/
theorem add_one_add_ofNat (index : UInt64) (k : Nat) :
    index + 1 + UInt64.ofNat k = index + UInt64.ofNat (k + 1) := by
  rw [UInt64.ofNat_add, UInt64.add_assoc, UInt64.add_comm 1]
  rfl

/-- The outcome of a range is that of the generator which the ranges before it left. -/
theorem getElem?_outcomesFrom (index : UInt64) {originals : List String} (g : Generator σ) {k : Nat}
    {original : String} (h : originals[k]? = some original) :
    (g.outcomesFrom groupsOf index originals)[k]? =
      some ⟨index + UInt64.ofNat k,
        ((g.afterRanges groupsOf index (originals.take k)).setRange (index + UInt64.ofNat k)
          (groupsOf original)).generate.1⟩ := by
  induction originals generalizing index g k with
  | nil => cases h
  | cons first originals ih =>
    cases k with
    | zero =>
      obtain rfl : first = original := Option.some.inj h
      have hindex : index + UInt64.ofNat 0 = index := UInt64.add_zero index
      rw [hindex]
      rfl
    | succ k =>
      rw [← add_one_add_ofNat]
      exact ih (index + 1) _ h

theorem program_afterRanges (index : UInt64) (originals : List String) (g : Generator σ) :
    (g.afterRanges groupsOf index originals).program = g.program := by
  induction originals generalizing index g with
  | nil => rfl
  | cons original originals ih => exact ih (index + 1) _

theorem length_run (g : Generator σ) (originals : List String) :
    (g.run groupsOf originals).1.length = originals.length := by
  rw [run, runFrom_fst, List.reverse_nil, List.nil_append, length_outcomesFrom]

theorem getElem?_run (g : Generator σ) {originals : List String} {k : Nat} {original : String}
    (h : originals[k]? = some original) :
    (g.run groupsOf originals).1[k]? =
      some ⟨UInt64.ofNat k, (g.atRange groupsOf originals k original).generate.1⟩ := by
  rw [run, runFrom_fst, List.reverse_nil, List.nil_append,
    getElem?_outcomesFrom groupsOf 0 g.resetFirst h, UInt64.zero_add]
  rfl

end

end Generator

end PatternText
