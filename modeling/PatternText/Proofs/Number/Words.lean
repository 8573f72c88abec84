import PatternText.Number.Exact

/-! Numbers cut to words. A number that is not below zero is cut to its whole part and then to the
greatest word at most, so cutting keeps the order and tells numbers apart as long as the smaller one is
below that word. -/

namespace PatternText.Exact

variable {e n m : Exact}

/-- Minus zero is not below zero. -/
theorem whole_eq_zero (h : e.isBelowZero = false) (hnegative : e.negative = true) : e.whole = 0 := by
  have hzero : e.units = 0 := by simpa [isBelowZero, hnegative] using h
  rw [whole, hzero, Nat.zero_div]

theorem toInt_of_not_isBelowZero (h : e.isBelowZero = false) : e.toInt = e.whole := by
  rw [toInt]
  split
  next hnegative =>
    rw [whole_eq_zero h hnegative]
    rfl
  next => rfl

theorem toWord_of_not_isBelowZero (h : e.isBelowZero = false) :
    e.toWord = UInt64.ofNat (min e.whole (UInt64.size - 1)) := by
  rw [toWord]
  split
  next hnegative =>
    rw [whole_eq_zero h hnegative]
    rfl
  next => rfl

theorem toNat_toWord (h : e.isBelowZero = false) :
    e.toWord.toNat = min e.whole (UInt64.size - 1) := by
  have hlt : min e.whole (UInt64.size - 1) < UInt64.size :=
    Nat.lt_of_le_of_lt (Nat.min_le_right _ _) (by decide)
  rw [toWord_of_not_isBelowZero h, UInt64.toNat_ofNat_of_lt' hlt]

/-- Cutting to words keeps the order of whole parts. -/
theorem toWord_le_toWord (hn : n.isBelowZero = false) (hm : m.isBelowZero = false)
    (h : n.toInt ≤ m.toInt) : n.toWord ≤ m.toWord := by
  rw [toInt_of_not_isBelowZero hn, toInt_of_not_isBelowZero hm, Int.ofNat_le] at h
  rw [UInt64.le_iff_toNat_le, toNat_toWord hn, toNat_toWord hm]
  exact Nat.le_min.2 ⟨Nat.le_trans (Nat.min_le_left _ _) h, Nat.min_le_right _ _⟩

/-- Numbers in the wrong order are words in the wrong order, unless both are beyond all words. -/
theorem toWord_lt_toWord (hn : n.isBelowZero = false) (hm : m.isBelowZero = false)
    (h : m.toInt < n.toInt) (hlimit : m.whole < UInt64.size - 1) : m.toWord < n.toWord := by
  rw [toInt_of_not_isBelowZero hn, toInt_of_not_isBelowZero hm, Int.ofNat_lt] at h
  rw [UInt64.lt_iff_toNat_lt, toNat_toWord hn, toNat_toWord hm,
    Nat.min_eq_left (Nat.le_of_lt hlimit)]
  exact Nat.lt_min.2 ⟨h, hlimit⟩

end PatternText.Exact
