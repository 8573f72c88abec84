import PatternText.Proofs.Generation.CountFaults

/-! Bounds that compilation refuses. An open interval whose constant least count is above the limit is
refused in the same way by every range. The ends of a closed interval are compared twice in two ways:
compilation compares the constants cut to whole numbers, a range compares the counts that they stand for.
The two agree while both constants are counts and the greatest one is below the greatest word. A constant
below zero is no count for a range, whatever the other one is; and constants beyond all words become the
same count, which a range accepts. -/

namespace PatternText

/-- The greatest count. -/
def greatestCount : UInt64 := UInt64.ofNat (UInt64.size - 1)

namespace Exact

/-- Beyond all words every number stands for the greatest count. -/
theorem toWord_of_le {e : Exact} (h : e.isBelowZero = false) (hle : UInt64.size - 1 ≤ e.whole) :
    e.toWord = greatestCount := by
  rw [toWord_of_not_isBelowZero h, Nat.min_eq_right hle]
  rfl

end Exact

namespace Bounds

/-- The exact value of an expression that compilation can evaluate. -/
def constantAmount? (e : Expression) : Option Exact := e.constant?.bind Exact.ofFloat?

/-- Constants at the ends of a closed interval are counts that words can tell apart. -/
def TellsApart : Bounds → Prop
  | between least most => ∀ n m, constantAmount? least = some n → constantAmount? most = some m →
      n.isBelowZero = false ∧ m.isBelowZero = false ∧ m.whole < UInt64.size - 1
  | _ => True

variable {upperBound : UInt64} {construct : String} {bounds : Bounds} {cause : NumberError}

/-- What compilation refuses, and why. -/
inductive RefusedEarly (upperBound : UInt64) (construct : String) : Bounds → NumberError → Prop where
  | atLeast {least : Expression} {x : Float} {n : Exact} (hleast : least.constant? = some x)
      (hn : Exact.ofFloat? x = some n) (hsign : n.isBelowZero = false) (habove : upperBound < n.toWord) :
      RefusedEarly upperBound construct (.atLeast least)
        (.minimumAboveUpperBound n.toWord upperBound construct)
  | between {least most : Expression} {x y : Float} {n m : Exact} (hleast : least.constant? = some x)
      (hn : Exact.ofFloat? x = some n) (hmost : most.constant? = some y)
      (hm : Exact.ofFloat? y = some m) (horder : m.toInt < n.toInt) :
      RefusedEarly upperBound construct (.between least most) (.boundsOutOfOrder construct)

theorem refusedEarly_of_checkConstant
    (h : bounds.checkConstant upperBound construct = .error cause) :
    RefusedEarly upperBound construct bounds cause := by
  cases bounds with
  | zeroOrMore | zeroOrOne | oneOrMore | exactly _ => cases h
  | atLeast least =>
    rw [checkConstant] at h
    cases hleast : least.constant?.bind Exact.ofFloat? with
    | none =>
      rw [hleast] at h
      cases h
    | some n =>
      rw [hleast] at h
      dsimp only at h
      split at h
      next hcheck =>
        cases h
        obtain ⟨x, hx, hn⟩ := Option.bind_eq_some_iff.1 hleast
        obtain ⟨hsign, habove⟩ := (Bool.and_eq_true _ _).mp hcheck
        exact .atLeast hx hn (Bool.not_eq_true' _ ▸ hsign) (of_decide_eq_true habove)
      next => cases h
  | between least most =>
    rw [checkConstant] at h
    cases hleast : least.constant?.bind Exact.ofFloat? with
    | none =>
      rw [hleast] at h
      cases h
    | some n =>
      cases hmost : most.constant?.bind Exact.ofFloat? with
      | none =>
        rw [hleast, hmost] at h
        cases h
      | some m =>
        rw [hleast, hmost] at h
        dsimp only at h
        split at h
        next horder =>
          cases h
          obtain ⟨x, hx, hn⟩ := Option.bind_eq_some_iff.1 hleast
          obtain ⟨y, hy, hm⟩ := Option.bind_eq_some_iff.1 hmost
          exact .between hx hn hy hm horder
        next => cases h

end Bounds

namespace Setting

variable {s : Setting} {counters : List UInt64} {construct : String} {least most : Expression}
  {x y : Float} {n m : Exact}

section Between

variable (hleast : least.constant? = some x) (hn : Exact.ofFloat? x = some n)
include hleast hn

theorem countRange_between_least (hsign : n.isBelowZero = true) :
    s.countRange counters construct (.between least most) = .error (.invalidCount construct x) := by
  rw [countRange, count_of_constant? hleast hn, if_pos hsign]

variable (hmost : most.constant? = some y) (hm : Exact.ofFloat? y = some m)
include hmost hm

theorem countRange_between_most (hsign : n.isBelowZero = false) (hsign' : m.isBelowZero = true) :
    s.countRange counters construct (.between least most) = .error (.invalidCount construct y) := by
  rw [countRange, count_of_constant? hleast hn, count_of_constant? hmost hm, hsign, if_pos hsign']
  rfl

theorem countRange_between (hsign : n.isBelowZero = false) (hsign' : m.isBelowZero = false) :
    s.countRange counters construct (.between least most) =
      if h : n.toWord ≤ m.toWord then .ok ⟨n.toWord, m.toWord, h⟩
      else .error (.number (.boundsOutOfOrder construct)) := by
  rw [countRange, count_of_constant? hleast hn, count_of_constant? hmost hm, hsign, hsign']
  rfl

end Between

end Setting

/-- Bounds that compilation refuses are refused by a range for the same cause, inside any loops, just when
constants at the ends of a closed interval are counts that words can tell apart; those of an open interval
always are. If they are not, a range finds no count at all in one of them, or takes both for the greatest
count. -/
theorem refused_again_iff {upperBound : UInt64} {construct : String} {bounds : Bounds}
    {cause : NumberError} (h : bounds.checkConstant upperBound construct = .error cause) (s : Setting)
    (hs : s.upperBound = upperBound) (counters : List UInt64) :
    (s.countRange counters construct bounds = .error (.number cause) ↔ bounds.TellsApart) ∧
      (s.countRange counters construct bounds = .error (.number cause) ∨
        (∃ x, s.countRange counters construct bounds = .error (.invalidCount construct x)) ∨
        s.countRange counters construct bounds =
          .ok ⟨greatestCount, greatestCount, UInt64.le_refl _⟩) := by
  subst hs
  cases Bounds.refusedEarly_of_checkConstant h with
  | @atLeast least x n hleast hn hsign habove =>
    have hagain : s.countRange counters construct (.atLeast least) =
        .error (.number (.minimumAboveUpperBound n.toWord s.upperBound construct)) := by
      rw [Setting.countRange, Setting.count_of_constant? hleast hn, hsign]
      exact dif_neg (UInt64.not_le.2 habove)
    exact ⟨iff_of_true hagain trivial, .inl hagain⟩
  | @between least most x y n m hleast hn hmost hm horder =>
    have happart : (Bounds.between least most).TellsApart ↔
        n.isBelowZero = false ∧ m.isBelowZero = false ∧ m.whole < UInt64.size - 1 := by
      have hn' : Bounds.constantAmount? least = some n := by
        rw [Bounds.constantAmount?, hleast, Option.bind_some, hn]
      have hm' : Bounds.constantAmount? most = some m := by
        rw [Bounds.constantAmount?, hmost, Option.bind_some, hm]
      constructor
      · exact fun hall => hall n m hn' hm'
      · rintro hcounts n' m' hn'' hm''
        obtain rfl := Option.some.inj (hn'.symm.trans hn'')
        obtain rfl := Option.some.inj (hm'.symm.trans hm'')
        exact hcounts
    rw [happart]
    cases hsign : n.isBelowZero with
    | true =>
      have hfault : s.countRange counters construct (.between least most) =
          .error (.invalidCount construct x) := Setting.countRange_between_least hleast hn hsign
      rw [hfault]
      exact ⟨iff_of_false (by simp) (by simp), .inr (.inl ⟨x, rfl⟩)⟩
    | false =>
      cases hsign' : m.isBelowZero with
      | true =>
        have hfault : s.countRange counters construct (.between least most) =
            .error (.invalidCount construct y) :=
          Setting.countRange_between_most hleast hn hmost hm hsign hsign'
        rw [hfault]
        exact ⟨iff_of_false (by simp) (by simp), .inr (.inl ⟨y, rfl⟩)⟩
      | false =>
        rw [Setting.countRange_between hleast hn hmost hm hsign hsign']
        by_cases hlimit : m.whole < UInt64.size - 1
        · rw [dif_neg (UInt64.not_le.2 (Exact.toWord_lt_toWord hsign hsign' horder hlimit))]
          exact ⟨iff_of_true rfl ⟨rfl, rfl, hlimit⟩, .inl rfl⟩
        · have hm' := Exact.toWord_of_le hsign' (Nat.not_lt.1 hlimit)
          have hn' : n.toWord = greatestCount := by
            apply Exact.toWord_of_le hsign
            rw [Exact.toInt_of_not_isBelowZero hsign, Exact.toInt_of_not_isBelowZero hsign',
              Int.ofNat_lt] at horder
            omega
          simp only [hn', hm', UInt64.le_refl, dif_pos]
          exact ⟨iff_of_false (by simp) fun hall => hlimit hall.2.2, .inr (.inr trivial)⟩

/-- Three up to two times is refused twice. -/
theorem threeToTwo_refused_again :
    let s : Setting := ⟨10, 0, #[], #[]⟩
    let bounds : Bounds := .between (.ofText "3") (.ofText "2")
    bounds.checkConstant s.upperBound "{3,2}" = .error (.boundsOutOfOrder "{3,2}") ∧
    bounds.TellsApart ∧
    s.countRange [] "{3,2}" bounds = .error (.number (.boundsOutOfOrder "{3,2}")) := by
  intro s bounds
  have hcheck : bounds.checkConstant s.upperBound "{3,2}" =
      .error (.boundsOutOfOrder "{3,2}") := by decide +kernel
  have hthree : Bounds.constantAmount? (.ofText "3") = some ⟨false, 3 * unitsPerOne⟩ := by
    decide +kernel
  have htwo : Bounds.constantAmount? (.ofText "2") = some ⟨false, 2 * unitsPerOne⟩ := by
    decide +kernel
  have happart : bounds.TellsApart := by
    intro n m hn hm
    obtain rfl := Option.some.inj (hthree.symm.trans hn)
    obtain rfl := Option.some.inj (htwo.symm.trans hm)
    exact ⟨rfl, rfl, by decide +kernel⟩
  exact ⟨hcheck, happart, (refused_again_iff hcheck s rfl []).1.2 happart⟩

/-- Once up to minus once: compilation finds the constants in the wrong order, and a range finds that the
greatest one is no count. -/
theorem negativeMost_refused_otherwise :
    Program.ofPattern (.ofSettings {}) "a{1,-1}" =
      .error (.number (.boundsOutOfOrder "{1,-1}")) ∧
    ¬∀ (bounds : Bounds) (construct : String) (cause : NumberError) (s : Setting),
      bounds.checkConstant s.upperBound construct = .error cause →
        s.countRange [] construct bounds = .error (.number cause) := by
  constructor
  · have hletter : Program.ofText (.ofSettings {}) "a" = .ok ⟨[.literal "a"], 0⟩ :=
      Program.ofText_plain (c := 'a') (by decide)
    have hfactor : IsFactor "a" := isFactor_base (.atom (.plain 'a' (by decide)))
    obtain ⟨step, -, hrepeat⟩ := Program.ofText_repeated hletter hfactor
    let x : Quantifier := .between
      ⟨['1'], by decide, List.forall_mem_singleton.2 (by decide)⟩
      ⟨['-', '1'], by decide,
        List.forall_mem_cons.2 ⟨by decide, List.forall_mem_singleton.2 (by decide)⟩⟩
    have hcheck : x.bounds.checkConstant (Config.ofSettings {}).upperBound x.toString =
        .error (.boundsOutOfOrder x.toString) := by decide +kernel
    have hloop := hrepeat x
    rw [hcheck] at hloop
    rw [Program.ofPattern_eq, if_neg (by decide)]
    exact hloop
  · intro h
    have hone : Bounds.constantAmount? (.ofText "1") = some ⟨false, unitsPerOne⟩ := by decide +kernel
    have hminusOne : Bounds.constantAmount? (.ofText "-1") = some ⟨true, unitsPerOne⟩ := by
      decide +kernel
    have hcheck : (Bounds.between (.ofText "1") (.ofText "-1")).checkConstant 10 "{1,-1}" =
        .error (.boundsOutOfOrder "{1,-1}") := by decide +kernel
    have hagain := refused_again_iff hcheck ⟨10, 0, #[], #[]⟩ rfl []
    obtain ⟨-, hsign, -⟩ := hagain.1.1 (h _ _ _ ⟨10, 0, #[], #[]⟩ hcheck) _ _ hone hminusOne
    have hbelow : Exact.isBelowZero ⟨true, unitsPerOne⟩ = true := by decide +kernel
    exact Bool.false_ne_true (hsign.symm.trans hbelow)

end PatternText
