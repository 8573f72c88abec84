import PatternText.Proofs.Generation.Course

/-! Loop counters are lexical. On the stack that a whole evaluation shares lie, at every moment, the
indexes of the rounds around that moment on top of what was there at the beginning. So an expression
reads in it what it reads in the counters passed down to its step: the innermost counter is the index
of the round it stands in, and going `k` loops outwards leads to the `k`-th of these indexes. -/

namespace PatternText

/-! ### Whole numbers as places -/

/-- The number is exactly this whole number. -/
def IsWhole (x : Float) (k : Int) : Prop :=
  ∃ e, Exact.ofFloat? x = some e ∧ e.signedUnits = k * unitsPerOne

theorem Exact.units_of_signedUnits {e : Exact} {n : Nat} (h : e.signedUnits = (n : Int)) :
    e.units = n ∧ (e.negative = true → n = 0) := by
  rw [Exact.signedUnits] at h
  cases hsign : e.negative with
  | false =>
    rw [hsign, if_neg Bool.false_ne_true] at h
    exact ⟨Int.ofNat.inj h, fun h => nomatch h⟩
  | true =>
    rw [hsign, if_pos rfl] at h
    omega

/-- A whole number below the greatest word is a place. -/
theorem indexValue?_of_isWhole {x : Float} {k : Nat} (h : IsWhole x k) (hk : k < UInt64.size) :
    indexValue? x = some (UInt64.ofNat k) := by
  obtain ⟨e, he, hvalue⟩ := h
  obtain ⟨hunits, hzero⟩ := e.units_of_signedUnits (n := k * unitsPerOne) hvalue
  have hwhole : e.whole = k := by rw [Exact.whole, hunits, Nat.mul_div_cancel k unitsPerOne_pos]
  have hisWhole : e.isWhole = true := by rw [Exact.isWhole, hunits, Nat.mul_mod_left, beq_self_eq_true]
  have hsign : e.isBelowZero = false := by
    rw [Exact.isBelowZero, Bool.and_eq_false_iff, bne_eq_false_iff_eq, hunits]
    exact (Bool.eq_false_or_eq_true e.negative).symm.imp id hzero
  have hword : e.toWord = UInt64.ofNat k := by
    rw [Exact.toWord, hwhole, Nat.min_eq_left (by omega)]
    split
    next hnegative =>
      have hk0 : k = 0 := (Nat.mul_eq_zero.1 (hzero hnegative)).resolve_right (Nat.ne_of_gt unitsPerOne_pos)
      rw [hk0]
      rfl
    next => rfl
  rw [indexValue?_eq, he, Option.bind_some]
  simp only [hisWhole, hsign, hwhole, hword, Bool.not_false, Bool.and_self, Bool.true_and,
    decide_eq_true_eq, if_pos (Nat.le_of_lt hk)]

/-- Numbers below zero are no places. -/
theorem indexValue?_of_isWhole_neg {x : Float} {k : Int} (h : IsWhole x k) (hk : k < 0) :
    indexValue? x = none := by
  obtain ⟨e, he, hvalue⟩ := h
  have hbelow : e.signedUnits < 0 := hvalue ▸ Int.mul_neg_of_neg_of_pos hk (mod_cast unitsPerOne_pos)
  have hsign : e.isBelowZero = true := by
    rw [Exact.signedUnits] at hbelow
    rw [Exact.isBelowZero, Bool.and_eq_true, bne_iff_ne]
    split at hbelow
    next hnegative => exact ⟨hnegative, by omega⟩
    next => omega
  rw [indexValue?_eq, he, Option.bind_some]
  simp only [hsign, Bool.not_true, Bool.and_false, Bool.false_and, Bool.false_eq_true, if_false]

/-! ### The stack and what is around -/

variable {σ : Type}

/-- What variables stand for at a moment: loops around it, then those that were open before the
evaluation began. -/
structure Moment.ReadsLexically (s : Setting) (before : List UInt64) (m : Moment σ) : Prop where
  counter : Expr.counter.eval? (s.scope m.counters) =
    some ((m.around.rounds ++ before).headD s.rangeIndex).toFloat
  outerCounter (e : Expr) (x : Float) (k : Int) (hx : e.eval? (s.scope m.counters) = some x)
    (hwhole : IsWhole x k) (hk : k < UInt64.size - 1) :
    (Expr.outerCounter e).eval? (s.scope m.counters) =
      if 0 ≤ k then ((m.around.rounds ++ before)[k.toNat]?).map UInt64.toFloat else none
  outerCounter_isSome (e : Expr) (x : Float) (k : Int) (hx : e.eval? (s.scope m.counters) = some x)
    (hwhole : IsWhole x k) (hk : k < UInt64.size - 1) :
    ((Expr.outerCounter e).eval? (s.scope m.counters)).isSome ↔
      0 ≤ k ∧ k < m.around.rounds.length + before.length

theorem eval?_outerCounter {s : Setting} {counters : List UInt64} {e : Expr} {x : Float} {k : Int}
    (hx : e.eval? (s.scope counters) = some x) (hwhole : IsWhole x k) (hk : k < UInt64.size - 1) :
    (Expr.outerCounter e).eval? (s.scope counters) =
      if 0 ≤ k then (counters[k.toNat]?).map UInt64.toFloat else none := by
  rw [Expr.eval?, hx]
  by_cases hpos : 0 ≤ k
  · obtain ⟨n, rfl⟩ := Int.eq_ofNat_of_zero_le hpos
    have hlt : n < UInt64.size := by omega
    rw [if_pos hpos, Int.toNat_natCast, Option.bind_eq_bind, Option.bind_some,
      indexValue?_of_isWhole hwhole hlt, Option.bind_eq_bind, Option.bind_some,
      UInt64.toNat_ofNat_of_lt' hlt]
    rfl
  · rw [if_neg hpos, Option.bind_eq_bind, Option.bind_some,
      indexValue?_of_isWhole_neg hwhole (Int.not_le.1 hpos)]
    rfl

theorem Moment.readsLexically {s : Setting} {before : List UInt64} {m : Moment σ}
    (h : m.counters = m.around.rounds ++ before) : m.ReadsLexically s before where
  counter := by rw [h]; rfl
  outerCounter e x k hx hwhole hk := by rw [eval?_outerCounter hx hwhole hk, h]
  outerCounter_isSome e x k hx hwhole hk := by
    rw [eval?_outerCounter hx hwhole hk, h, ← Int.natCast_add, ← List.length_append]
    by_cases hpos : 0 ≤ k
    · rw [if_pos hpos, Option.isSome_map, isSome_getElem?]
      omega
    · simp [hpos]

/-- The stack holds the rounds around on top of what was there before, and did so at all moments. -/
structure Stacked (program : List Step) (before : List UInt64) (around : Around) (c : Course σ) :
    Prop where
  counters : c.counters = around.rounds ++ before
  moments : ∀ m ∈ c.moments, m.counters = m.around.rounds ++ before ∧
    ∀ step ∈ m.next, Stands program m.around step

theorem stacked_kept (program : List Step) (before : List UInt64) :
    Kept program (Stacked (σ := σ) program before) where
  note hnext h := ⟨h.counters, List.forall_mem_cons.2 ⟨⟨h.counters, hnext⟩, h.moments⟩⟩
  settle h _ _ := ⟨h.counters, h.moments⟩
  enter _ h := ⟨h.counters, h.moments⟩
  complete h _ := ⟨h.counters, h.moments⟩
  push h := ⟨congrArg (0 :: ·) h.counters, h.moments⟩
  setTop h j := by
    rw [Course.setTop, h.counters]
    exact ⟨rfl, h.moments⟩
  pop h := ⟨by rw [Course.pop, h.counters]; rfl, h.moments⟩

/-- The evaluation on one shared stack of counters and the evaluation that passes counters down to the
steps inside a loop have the same result and the same progress; after a text the stack is what it was.
Each step of the program is read with the indexes of the loops around it. -/
theorem runSteps_counters_lexical [Chooser σ] (s : Setting) (steps : List Step)
    (counters : List UInt64) (p : Progress σ) :
    let run := runSteps s {} "" steps { progress := p, counters }
    (run.1, run.2.progress) = evalSteps s counters "" steps p ∧
      (∀ text, run.1 = .ok text → run.2.counters = counters) ∧
      ∀ m ∈ run.2.moments, (∀ step ∈ m.next, Stands steps m.around step) ∧
        m.ReadsLexically s counters := by
  intro run
  have hends : Ends counters run (evalSteps s counters "" steps p) :=
    runSteps_ends s {} "" steps { progress := p, counters }
  have hafter : After (Stacked steps counters) {} run :=
    (stacked_kept steps counters).runSteps s (fun _ => .outermost) ""
      ⟨rfl, fun _ hmem => absurd hmem List.not_mem_nil⟩
  obtain ⟨inside, hstacked⟩ := hafter.exists_inside
  refine ⟨hends.eq, fun text htext => hends.counters_eq htext, fun m hm => ?_⟩
  obtain ⟨hcounters, hstands⟩ := hstacked.moments m hm
  exact ⟨hstands, m.readsLexically hcounters⟩

end PatternText
