import PatternText.Proofs.Guarded.Machine
import PatternText.Proofs.Number.Rounding
import PatternText.Proofs.Number.Words

/-! What computed places address. A number is a place if it is whole, not negative and at most `2 ^ 64`.
Then it is the place that it denotes, but for the last one: that is no word, and the greatest word stands
for it. There is nothing at the greatest word as long as rows are no longer than words can count. So
counters and source groups are only ever looked up at the number that was computed. -/

namespace PatternText

/-! ### Places -/

namespace Exact

variable {e : Exact} {n : ℕ}

theorem whole_of_value (h : e.value = n) : e.isWhole = true ∧ e.whole = n := by
  have hwhole : e.isWhole = true := e.isWhole_iff_exists_int.2 ⟨n, by rw [h, Int.cast_natCast]⟩
  have habs := e.abs_value_of_isWhole hwhole
  rw [h, Nat.abs_cast] at habs
  exact ⟨hwhole, (Nat.cast_injective habs).symm⟩

theorem isBelowZero_of_value (h : e.value = n) : e.isBelowZero = false := by
  rw [Bool.eq_false_iff, Ne, ← value_neg_iff, h]
  exact not_lt.2 (Nat.cast_nonneg n)

theorem value_of_isWhole (hwhole : e.isWhole = true) (hsign : e.isBelowZero = false) :
    e.value = e.whole := by
  rw [value_eq_abs, hsign, if_neg Bool.false_ne_true, abs_value_of_isWhole e hwhole]

end Exact

variable {x : Float} {n : ℕ}

theorem floatValue?_eq_some_iff {q : ℚ} :
    floatValue? x = some q ↔ ∃ e, Exact.ofFloat? x = some e ∧ e.value = q := by
  rw [floatValue?_eq, Option.map_eq_some_iff]

/-- The accepted numbers are the whole ones from zero up to `2 ^ 64`. -/
theorem indexValue?_eq_some_iff_min (x : Float) (k : UInt64) : indexValue? x = some k ↔
    ∃ n : ℕ, n ≤ UInt64.size ∧ floatValue? x = some (n : ℚ) ∧ k.toNat = min n (UInt64.size - 1) := by
  rw [indexValue?_eq]
  cases he : Exact.ofFloat? x with
  | none => simp [floatValue?_eq_some_iff, he]
  | some e =>
    simp only [floatValue?_eq_some_iff, he, Option.bind_some, Option.some.injEq, exists_eq_left',
      Option.ite_none_right_eq_some, Bool.and_eq_true, Bool.not_eq_true', decide_eq_true_eq]
    constructor
    · rintro ⟨⟨⟨hwhole, hsign⟩, hle⟩, rfl⟩
      have hvalue := Exact.value_of_isWhole hwhole hsign
      exact ⟨e.whole, hle, hvalue, Exact.toNat_toWord hsign⟩
    · rintro ⟨n, hle, hvalue, hk⟩
      obtain ⟨hwhole, hn⟩ := Exact.whole_of_value hvalue
      have hsign := Exact.isBelowZero_of_value hvalue
      rw [← hn, ← Exact.toNat_toWord hsign] at hk
      exact ⟨⟨⟨hwhole, hsign⟩, hn ▸ hle⟩, (UInt64.toNat_inj.1 hk).symm⟩

/-- Each accepted number but the last one is its own place. -/
theorem indexValue?_eq_some_iff (x : Float) (k : UInt64) : indexValue? x = some k ↔
    floatValue? x = some (k.toNat : ℚ) ∨
      floatValue? x = some (2 ^ 64) ∧ k.toNat = UInt64.size - 1 := by
  have hk := k.toNat_lt
  rw [indexValue?_eq_some_iff_min]
  constructor
  · rintro ⟨n, hle, hvalue, hmin⟩
    rcases hle.eq_or_lt with rfl | hlt
    · exact .inr ⟨by rw [hvalue]; norm_num [UInt64.size], hmin⟩
    · exact .inl (by rwa [hmin, Nat.min_eq_left (Nat.le_sub_one_of_lt hlt)])
  · rintro (hvalue | ⟨hvalue, hmin⟩)
    · exact ⟨k.toNat, hk.le, hvalue, (Nat.min_eq_left (Nat.le_sub_one_of_lt hk)).symm⟩
    · exact ⟨UInt64.size, le_rfl, by rw [hvalue]; norm_num [UInt64.size], by rw [hmin]; rfl⟩

theorem indexValue?_eq_none_iff (x : Float) : indexValue? x = none ↔
    ∀ n : ℕ, n ≤ 2 ^ 64 → floatValue? x ≠ some (n : ℚ) := by
  rw [Option.eq_none_iff_forall_ne_some]
  constructor
  · intro h n hle hvalue
    have hlt : min n (UInt64.size - 1) < UInt64.size :=
      Nat.lt_of_le_of_lt (Nat.min_le_right _ _) (by decide)
    exact h (.ofNat (min n (UInt64.size - 1))) ((indexValue?_eq_some_iff_min x _).2
      ⟨n, hle, hvalue, UInt64.toNat_ofNat_of_lt' hlt⟩)
  · intro h k hk
    obtain ⟨n, hle, hvalue, -⟩ := (indexValue?_eq_some_iff_min x k).1 hk
    exact h n hle hvalue

/-- Odd numbers are too fine for the grid from `2 ^ 53` on. -/
theorem lt_of_value_odd (h : floatValue? x = some (n : ℚ)) (hodd : n % 2 = 1) : n < 2 ^ 53 := by
  obtain ⟨e, he, hvalue⟩ := floatValue?_eq_some_iff.1 h
  obtain ⟨hwhole, hn⟩ := Exact.whole_of_value hvalue
  have hunits := e.isWhole_iff.1 hwhole
  obtain ⟨k, hk⟩ : ∃ k, k = 1074 := ⟨_, rfl⟩
  rw [hn, unitsPerOne_eq_pow hk] at hunits
  rcases Exact.pow_dvd_or_lt he (k + 1) with hdvd | hlt
  · rw [hunits, Nat.pow_succ, Nat.mul_comm] at hdvd
    have htwo : 2 ∣ n := Nat.dvd_of_mul_dvd_mul_right (Nat.two_pow_pos k) hdvd
    omega
  · rw [hunits, show 52 + (k + 1) = 53 + k by omega, Nat.pow_add] at hlt
    exact Nat.lt_of_mul_lt_mul_right hlt

/-- The greatest word only ever stands for the number after it. -/
theorem indexValue?_eq_greatest_iff (x : Float) {k : UInt64} (hk : k.toNat + 1 = UInt64.size) :
    indexValue? x = some k ↔ floatValue? x = some (2 ^ 64) := by
  have hsub : k.toNat = UInt64.size - 1 := by omega
  rw [indexValue?_eq_some_iff]
  constructor
  · rintro (hvalue | ⟨hvalue, -⟩)
    · have hlt := lt_of_value_odd hvalue (by rw [hsub]; rfl)
      rw [hsub] at hlt
      exact absurd hlt (by decide)
    · exact hvalue
  · exact fun hvalue => .inr ⟨hvalue, hsub⟩

/-! ### Lookups -/

section Lookup

variable {α : Type} {f : ℕ → Option α} {a : α} (hf : ∀ n, UInt64.size - 1 ≤ n → f n = none)
include hf

/-- Where something is found, the place is the number. -/
theorem value_of_lookup {k : UInt64} (hk : indexValue? x = some k) (ha : f k.toNat = some a) :
    floatValue? x = some (k.toNat : ℚ) := by
  rcases (indexValue?_eq_some_iff x k).1 hk with hvalue | ⟨-, hgreatest⟩
  · exact hvalue
  · rw [hf _ hgreatest.ge] at ha
    cases ha

theorem indexValue?_of_lookup (hvalue : floatValue? x = some (n : ℚ)) (ha : f n = some a) :
    ∃ k, indexValue? x = some k ∧ k.toNat = n := by
  have hlt : n < UInt64.size := by
    by_contra hge
    rw [hf n ((Nat.sub_le _ _).trans (Nat.not_lt.1 hge))] at ha
    cases ha
  have hn : (UInt64.ofNat n).toNat = n := UInt64.toNat_ofNat_of_lt' hlt
  exact ⟨.ofNat n, (indexValue?_eq_some_iff x _).2 (.inl (by rwa [hn])), hn⟩

/-- A lookup at a computed place finds what is at the number. -/
theorem bind_indexValue?_eq_some_iff : ((indexValue? x).bind fun k => f k.toNat) = some a ↔
    ∃ n : ℕ, floatValue? x = some (n : ℚ) ∧ f n = some a := by
  rw [Option.bind_eq_some_iff]
  constructor
  · rintro ⟨k, hk, ha⟩
    exact ⟨k.toNat, value_of_lookup hf hk ha, ha⟩
  · rintro ⟨n, hvalue, ha⟩
    obtain ⟨k, hk, rfl⟩ := indexValue?_of_lookup hf hvalue ha
    exact ⟨k, hk, ha⟩

end Lookup

/-! ### Counters and source groups -/

/-- The text of a source reference to a group, given what the first range had in its place. -/
def referredText (modifier : Option FirstModifier) (first : Option String) (current : String) : String :=
  match modifier, first with
  | some .first, some first => first
  | some .minusFirst, some first => stripFront first current
  | _, _ => current

/-- What expressions and source references find is at the place that was computed. -/
structure FindsComputed (s : Setting) (counters : List UInt64) : Prop where
  outerCounter (e : Expr) (y : Float) :
    (Expr.outerCounter e).eval? (s.scope counters) = some y ↔
      ∃ (x : Float) (n : ℕ) (counter : UInt64), e.eval? (s.scope counters) = some x ∧
        floatValue? x = some (n : ℚ) ∧ counters[n]? = some counter ∧ y = counter.toFloat
  sourceValue (e : Expr) (y : Float) :
    (Expr.sourceValue e).eval? (s.scope counters) = some y ↔
      ∃ (x : Float) (n : ℕ), e.eval? (s.scope counters) = some x ∧
        floatValue? x = some (n : ℚ) ∧ s.sourceValues[n]? = some y
  sourceText {σ : Type} (place : Expression) (modifier : Option FirstModifier) (construct : String)
    (p p' : Progress σ) (text : String) :
    s.sourceText counters place modifier construct p = (.ok text, p') ↔
      p' = (if modifier.isSome then s.rememberFirst p else p) ∧
      ∃ (x : Float) (n : ℕ) (current : String), place.value (s.scope counters) = .ok x ∧
        floatValue? x = some (n : ℚ) ∧ s.sourceGroups[n]? = some (some current) ∧
        text = referredText modifier
          ((((p'.firstGroups.getD #[])[n]?).join).filter fun text => !text.isEmpty) current

section Setting

variable {s : Setting} {counters : List UInt64}

theorem eval?_outerCounter_eq_some_iff (h : counters.length < UInt64.size) {e : Expr} {y : Float} :
    (Expr.outerCounter e).eval? (s.scope counters) = some y ↔
      ∃ (x : Float) (n : ℕ) (counter : UInt64), e.eval? (s.scope counters) = some x ∧
        floatValue? x = some (n : ℚ) ∧ counters[n]? = some counter ∧ y = counter.toFloat := by
  have hlookup {x : Float} {counter : UInt64} :=
    bind_indexValue?_eq_some_iff (x := x) (a := counter) (f := (counters[·]?))
      fun n hn => List.getElem?_eq_none (by omega)
  simp only [Expr.eval?, Option.bind_eq_bind, Option.bind_eq_some_iff, Option.map_eq_some_iff]
  constructor
  · rintro ⟨x, hx, k, hk, counter, hcounter, rfl⟩
    obtain ⟨n, hvalue, hn⟩ := hlookup.1 (Option.bind_eq_some_iff.2 ⟨k, hk, hcounter⟩)
    exact ⟨x, n, counter, hx, hvalue, hn, rfl⟩
  · rintro ⟨x, n, counter, hx, hvalue, hn, rfl⟩
    obtain ⟨k, hk, hcounter⟩ := Option.bind_eq_some_iff.1 (hlookup.2 ⟨n, hvalue, hn⟩)
    exact ⟨x, hx, k, hk, counter, hcounter, rfl⟩

theorem eval?_sourceValue_eq_some_iff (h : s.sourceValues.size < UInt64.size) {e : Expr} {y : Float} :
    (Expr.sourceValue e).eval? (s.scope counters) = some y ↔
      ∃ (x : Float) (n : ℕ), e.eval? (s.scope counters) = some x ∧
        floatValue? x = some (n : ℚ) ∧ s.sourceValues[n]? = some y := by
  have hlookup (x : Float) :=
    bind_indexValue?_eq_some_iff (x := x) (a := y) (f := (s.sourceValues[·]?))
      fun n hn => Array.getElem?_eq_none (by omega)
  simp only [Expr.eval?, Option.bind_eq_bind]
  rw [Option.bind_eq_some_iff]
  constructor
  · rintro ⟨x, hx, hfound⟩
    obtain ⟨n, hvalue, hn⟩ := (hlookup x).1 hfound
    exact ⟨x, n, hx, hvalue, hn⟩
  · rintro ⟨x, n, hx, hvalue, hn⟩
    exact ⟨x, hx, (hlookup x).2 ⟨n, hvalue, hn⟩⟩

/-- A source reference to a group that is there has a text. -/
theorem sourceText_of_group {σ : Type} {place : Expression} {modifier : Option FirstModifier}
    {construct : String} {p : Progress σ} {x : Float} {k : UInt64} {current : String}
    (hx : place.value (s.scope counters) = .ok x) (hk : indexValue? x = some k)
    (hcurrent : (s.sourceGroups[k.toNat]?).join = some current) :
    let p' := if modifier.isSome then s.rememberFirst p else p
    s.sourceText counters place modifier construct p =
      (.ok (referredText modifier
        ((((p'.firstGroups.getD #[])[k.toNat]?).join).filter fun text => !text.isEmpty) current), p') := by
  intro p'
  rw [Setting.sourceText, hx]
  simp only [hk, groupAt?, Option.bind_some, hcurrent]
  change (match modifier, (((p'.firstGroups.getD #[])[k.toNat]?).join).filter fun text => !text.isEmpty with
    | some .first, some first => ((.ok first, p') : Evaluation σ)
    | some .minusFirst, some first => (.ok (stripFront first current), p')
    | _, _ => (.ok current, p')) = _
  generalize (((p'.firstGroups.getD #[])[k.toNat]?).join).filter (fun text => !text.isEmpty) = first
  cases modifier with
  | none => rfl
  | some modifier => cases modifier <;> cases first <;> rfl

theorem sourceText_eq_ok_iff (h : s.sourceGroups.size < UInt64.size) {σ : Type} {place : Expression}
    {modifier : Option FirstModifier} {construct : String} {p p' : Progress σ} {text : String} :
    s.sourceText counters place modifier construct p = (.ok text, p') ↔
      p' = (if modifier.isSome then s.rememberFirst p else p) ∧
      ∃ (x : Float) (n : ℕ) (current : String), place.value (s.scope counters) = .ok x ∧
        floatValue? x = some (n : ℚ) ∧ s.sourceGroups[n]? = some (some current) ∧
        text = referredText modifier
          ((((p'.firstGroups.getD #[])[n]?).join).filter fun text => !text.isEmpty) current := by
  have hnone : ∀ n, UInt64.size - 1 ≤ n → (s.sourceGroups[n]?).join = none := by
    intro n hn
    rw [Array.getElem?_eq_none (by omega)]
    rfl
  constructor
  · intro htext
    cases hx : place.value (s.scope counters) with
    | error fault =>
      rw [Setting.sourceText, hx] at htext
      cases htext
    | ok x =>
      cases hgroup : groupAt? s.sourceGroups (indexValue? x) with
      | none =>
        rw [Setting.sourceText, hx] at htext
        simp only [hgroup] at htext
        cases htext
      | some current =>
        obtain ⟨k, hk, hcurrent⟩ := Option.bind_eq_some_iff.1 hgroup
        rw [sourceText_of_group hx hk hcurrent] at htext
        obtain ⟨hsame, rfl⟩ := Prod.mk.inj htext
        exact ⟨rfl, x, k.toNat, current, rfl, value_of_lookup hnone hk hcurrent,
          Option.join_eq_some_iff.1 hcurrent, (Except.ok.inj hsame).symm⟩
  · rintro ⟨rfl, x, n, current, hx, hvalue, hn, rfl⟩
    have hcurrent : (s.sourceGroups[n]?).join = some current := Option.join_eq_some_iff.2 hn
    obtain ⟨k, hk, rfl⟩ := indexValue?_of_lookup hnone hvalue hcurrent
    exact sourceText_of_group hx hk hcurrent

/-- One more than a level is no word exactly if the level is the greatest word. -/
theorem stops_at_level_iff {stack : Array UInt64} {k : UInt64} :
    (∃ limit, Guarded.outerCounter stack k = .error (.limit limit)) ↔
      k.toNat + 1 = UInt64.size := by
  constructor
  · rintro ⟨limit, hlimit⟩
    by_contra hless
    rw [Guarded.outerCounter, dif_neg hless] at hlimit
    by_cases hdeep : k.toNat + 1 ≤ stack.size
    · rw [if_pos hdeep] at hlimit
      dsimp only at hlimit
      cases hcounter : stack[stack.size - (k.toNat + 1)]? <;> rw [hcounter] at hlimit <;> cases hlimit
    · rw [if_neg hdeep] at hlimit
      cases hlimit
  · intro hgreatest
    rw [Guarded.outerCounter, dif_pos hgreatest]
    exact ⟨_, rfl⟩

theorem evalExpr_outerCounter {stack : Array UInt64} {e : Expr} {x : Float}
    (hx : Guarded.evalExpr s stack e = .ok (some x)) :
    Guarded.evalExpr s stack (.outerCounter e) =
      (indexValue? x).elim (.ok none) (Guarded.outerCounter stack) := by
  rw [Guarded.evalExpr, hx]
  cases hk : indexValue? x <;> simp only [bind, Except.bind, Option.bind_some, hk, Option.elim]

/-- Counting the levels out to a loop stops exactly if there are `2 ^ 64` of them to go. -/
theorem outerCounter_stops_iff {stack : Array UInt64} {e : Expr} {x : Float}
    (hx : Guarded.evalExpr s stack e = .ok (some x)) :
    (∃ limit, Guarded.evalExpr s stack (.outerCounter e) = .error (.limit limit)) ↔
      floatValue? x = some (2 ^ 64) := by
  rw [evalExpr_outerCounter hx]
  cases hk : indexValue? x with
  | none =>
    refine iff_of_false (fun ⟨limit, hlimit⟩ => by cases hlimit) fun hvalue => ?_
    exact (indexValue?_eq_none_iff x).1 hk (2 ^ 64) le_rfl (by rw [hvalue]; norm_num)
  | some k =>
    rw [Option.elim_some, stops_at_level_iff]
    refine ⟨fun hgreatest => (indexValue?_eq_greatest_iff x hgreatest).1 hk, fun hvalue => ?_⟩
    rcases (indexValue?_eq_some_iff x k).1 hk with hvalue' | ⟨-, hgreatest⟩
    · have hcast : (k.toNat : ℚ) = 2 ^ 64 := Option.some.inj (hvalue'.symm.trans hvalue)
      have hnat : k.toNat = 2 ^ 64 := by exact_mod_cast hcast
      exact absurd k.toNat_lt hnat.ge.not_gt
    · rw [hgreatest]
      rfl

end Setting

/-- A number is accepted as a place exactly if it is one of the whole numbers from zero up to the greatest
word, and then it is its own place; besides, `2 ^ 64` is accepted as the greatest word, and nothing else
is. What expressions and source references look up is there at the number that was computed, whatever is
in scope, and only a loop `2 ^ 64` levels outwards cannot be looked for. -/
theorem places_are_computed (s : Setting) (counters : List UInt64)
    (hcounters : counters.length < UInt64.size) (hvalues : s.sourceValues.size < UInt64.size)
    (hgroups : s.sourceGroups.size < UInt64.size) :
    (∀ (x : Float) (k : UInt64), indexValue? x = some k ↔
      floatValue? x = some (k.toNat : ℚ) ∨
        floatValue? x = some (2 ^ 64) ∧ k.toNat = UInt64.size - 1) ∧
    (∀ x : Float, indexValue? x = none ↔
      ∀ n : ℕ, n ≤ 2 ^ 64 → floatValue? x ≠ some (n : ℚ)) ∧
    FindsComputed s counters ∧
    ∀ (stack : Array UInt64) (e : Expr) (x : Float), Guarded.evalExpr s stack e = .ok (some x) →
      ((∃ limit, Guarded.evalExpr s stack (.outerCounter e) = .error (.limit limit)) ↔
        floatValue? x = some (2 ^ 64)) :=
  ⟨indexValue?_eq_some_iff, indexValue?_eq_none_iff,
    { outerCounter := fun _ _ => eval?_outerCounter_eq_some_iff hcounters
      sourceValue := fun _ _ => eval?_sourceValue_eq_some_iff hvalues
      sourceText := fun _ _ _ _ _ _ => sourceText_eq_ok_iff hgroups },
    fun _ _ _ hx => outerCounter_stops_iff hx⟩

/-- Two source groups, of which only the first one took part in the match. -/
def secondMissing : Setting where
  upperBound := 5
  rangeIndex := 0
  sourceGroups := #[some "a", none]
  sourceValues := #[3, 0]

/-- Inside two loops the counter one level outwards is the other one, and the value of the first group is
at place zero, which minus zero is as well. -/
theorem twoLoops_places_computed :
    [4, 7].length < UInt64.size ∧ secondMissing.sourceValues.size < UInt64.size ∧
      secondMissing.sourceGroups.size < UInt64.size ∧
      indexValue? 1 = some 1 ∧ indexValue? (-0) = some 0 ∧
      (Expr.outerCounter (.number 1)).eval? (secondMissing.scope [4, 7]) =
        some (UInt64.toFloat 7) ∧
      (Expr.sourceValue (.number (-0))).eval? (secondMissing.scope [4, 7]) = some 3 ∧
      ∀ text p', secondMissing.sourceText [4, 7] ⟨"1", .ok (.number 1)⟩ none "1" ⟨(), #[], none⟩ ≠
        (.ok text, p') := by
  have hcounters : [4, 7].length < UInt64.size := by decide
  have hvalues : secondMissing.sourceValues.size < UInt64.size := by decide
  have hgroups : secondMissing.sourceGroups.size < UInt64.size := by decide
  obtain ⟨hplace, -, hfinds, -⟩ :=
    places_are_computed secondMissing [4, 7] hcounters hvalues hgroups
  have hone : floatValue? 1 = some ((1 : ℕ) : ℚ) := by decide +kernel
  have hzero : floatValue? (-0) = some ((0 : ℕ) : ℚ) := by decide +kernel
  have hsecond : Expression.value (secondMissing.scope [4, 7]) ⟨"1", .ok (.number 1)⟩ = .ok 1 := by
    have hfinite : Float.isFinite 1 = true := by decide +kernel
    have hfilter : (some (1 : Float)).filter Float.isFinite = some 1 :=
      Option.filter_eq_some_iff.2 ⟨rfl, hfinite⟩
    simp only [Expression.value, Expression.eval, Expr.evalFinite?, Expr.eval?, hfilter]
  refine ⟨hcounters, hvalues, hgroups, (hplace 1 1).2 (.inl hone), (hplace _ 0).2 (.inl hzero),
    (hfinds.outerCounter _ _).2 ⟨1, 1, 7, rfl, hone, rfl, rfl⟩,
    (hfinds.sourceValue _ _).2 ⟨-0, 0, rfl, hzero, rfl⟩, fun text p' htext => ?_⟩
  obtain ⟨-, x, n, current, hx, hvalue, hn, -⟩ := (hfinds.sourceText _ _ _ _ _ _).1 htext
  obtain rfl := Except.ok.inj (hsecond.symm.trans hx)
  obtain rfl : 1 = n := Nat.cast_injective (Option.some.inj (hone.symm.trans hvalue))
  cases hn

/-- The number after the greatest word is accepted as the greatest word. -/
theorem afterGreatest_accepted :
    indexValue? (Float.ofBits 0x43F0000000000000) = some 18446744073709551615 ∧
      floatValue? (Float.ofBits 0x43F0000000000000) = some (2 ^ 64) ∧
      ¬∀ (x : Float) (k : UInt64), indexValue? x = some k ↔ floatValue? x = some (k.toNat : ℚ) := by
  have haccepted : indexValue? (Float.ofBits 0x43F0000000000000) = some 18446744073709551615 := by
    decide +kernel
  have hvalue : floatValue? (Float.ofBits 0x43F0000000000000) = some (2 ^ 64) := by decide +kernel
  refine ⟨haccepted, hvalue, fun h => ?_⟩
  have hsame := (h _ _).1 haccepted
  rw [hvalue] at hsame
  exact absurd (Option.some.inj hsame) (by decide +kernel)

end PatternText
