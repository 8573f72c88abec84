import Mathlib.Algebra.Order.Floor.Div
import Mathlib.Data.Set.Card
import Mathlib.Order.Interval.Finset.Nat
import PatternText.Generation.Evaluate

/-! Random decisions are in range and even. A word decides on a place by its product with the number of
places in twice the width: the high half is the place, and the word is refused if the low half lies beyond
a zone. A count is decided on in the same way by a longer word. The zones are cut by a shift for places
and by a remainder for counts, in arithmetic that wraps; either way they hold a whole multiple of the
number of choices, and in every stretch of `n * q` low halves there are exactly `q` that a word leaves.
The seeded source takes the first word that is not refused, so that the steps that decide, which are
character sets, alternations and repetitions, share their decisions out evenly. -/

namespace PatternText

/-! ### Counting words -/

/-- Of the multiples of `n` there are `q` in every stretch of `n * q` numbers. -/
theorem card_multiples {N n q i : Nat} (hn : 0 < n) (hi : i < n) (hq : n * q ≤ N) :
    ((Finset.range N).filter fun w => w * n / N = i ∧ w * n % N < n * q).card = q := by
  have hfirst (w : Nat) : i * N ⌈/⌉ n ≤ w ↔ i * N ≤ n * w := ceilDiv_le_iff_le_mul hn
  have hlast (w : Nat) : w < i * N ⌈/⌉ n + q ↔ n * w < i * N + n * q := by
    rw [← not_le, ← not_le, not_iff_not]
    obtain ⟨v, rfl⟩ | hlt := (le_or_gt q w).imp_left Nat.exists_eq_add_of_le
    · rw [Nat.add_comm, Nat.add_le_add_iff_left, hfirst, Nat.mul_add, Nat.add_comm,
        Nat.add_le_add_iff_left]
    · have hmul : n * w < n * q := (Nat.mul_lt_mul_left hn).2 hlt
      omega
  have hstretch : (Finset.range N).filter (fun w => w * n / N = i ∧ w * n % N < n * q) =
      Finset.Ico (i * N ⌈/⌉ n) (i * N ⌈/⌉ n + q) := by
    ext w
    rw [Finset.mem_filter, Finset.mem_range, Finset.mem_Ico, hfirst, hlast, Nat.mul_comm w n]
    have hdiv := Nat.div_add_mod (n * w) N
    constructor
    · rintro ⟨-, rfl, hmod⟩
      rw [Nat.mul_comm]
      omega
    · rintro ⟨hlow, hhigh⟩
      have hw : n * w < n * N := by
        calc n * w < i * N + N := hhigh.trans_le (Nat.add_le_add_left hq _)
          _ = (i + 1) * N := (Nat.succ_mul i N).symm
          _ ≤ n * N := Nat.mul_le_mul_right N hi
      have hquotient : n * w / N = i :=
        Nat.div_eq_of_lt_le hlow (by rw [Nat.succ_mul]; omega)
      refine ⟨Nat.lt_of_mul_lt_mul_left hw, hquotient, ?_⟩
      rw [hquotient, Nat.mul_comm] at hdiv
      omega
  rw [hstretch, Nat.card_Ico, Nat.add_sub_cancel_left]

/-- Words are counted as the numbers that they stand for. -/
theorem ncard_words {W : Type} {value : W → Nat} (hinj : Function.Injective value) {N : Nat}
    (hrange : ∀ x, x < N ↔ ∃ w, value w = x) (P : Nat → Prop) [DecidablePred P] :
    {w : W | P (value w)}.ncard = ((Finset.range N).filter P).card := by
  rw [← Set.ncard_image_of_injective _ hinj, ← Set.ncard_coe_finset]
  congr 1
  ext x
  simp only [Set.mem_image, Set.mem_ofPred_eq, Finset.coe_filter, Finset.mem_range, hrange]
  constructor
  · rintro ⟨w, hw, rfl⟩
    exact ⟨⟨w, rfl⟩, hw⟩
  · rintro ⟨⟨w, rfl⟩, hw⟩
    exact ⟨w, hw, rfl⟩

theorem ncard_words32 (P : Nat → Prop) [DecidablePred P] :
    {w : UInt32 | P w.toNat}.ncard = ((Finset.range UInt32.size).filter P).card :=
  ncard_words (fun _ _ => UInt32.toNat_inj.1) (fun x =>
    ⟨fun hx => ⟨.ofNat x, UInt32.toNat_ofNat_of_lt hx⟩, fun ⟨w, hw⟩ => hw ▸ w.toNat_lt⟩) P

theorem ncard_words64 (P : Nat → Prop) [DecidablePred P] :
    {w : UInt64 | P w.toNat}.ncard = ((Finset.range UInt64.size).filter P).card :=
  ncard_words (fun _ _ => UInt64.toNat_inj.1) (fun x =>
    ⟨fun hx => ⟨.ofNat x, UInt64.toNat_ofNat_of_lt hx⟩, fun ⟨w, hw⟩ => hw ▸ w.toNat_lt⟩) P

/-! ### Places -/

/-- The number of zeros before the first one of a word. -/
def leadingZeros (n : UInt32) : UInt32 := UInt32.ofBitVec n.toBitVec.clz

/-- The place among `n` that a word decides on by its product with `n` in twice the width: the high half,
if the low half lies in the zone that is left when the zeros before `n` are shifted out. -/
def wideIndex? (n word : UInt32) : Option UInt32 :=
  let product := word.toUInt64 * n.toUInt64
  let zone := (n <<< leadingZeros n) - 1
  if product.toUInt32 ≤ zone then some (product >>> 32).toUInt32 else none

/-- The count from `lo` to `hi` that a word decides on by its product with their number in twice the
width: the high half, if the low half is not among the last ones that do not share out evenly. A number
of counts that wraps to zero takes the word as it is. -/
def wideCount? (lo hi word : UInt64) : Option UInt64 :=
  let n := hi - lo + 1
  if n = 0 then some word
  else
    let product : BitVec 128 := word.toBitVec.setWidth 128 * n.toBitVec.setWidth 128
    let greatest : UInt64 := -1
    let zone := greatest - (greatest - n + 1) % n
    if UInt64.ofBitVec (product.setWidth 64) ≤ zone then
      some (lo + UInt64.ofBitVec ((product >>> 64).setWidth 64))
    else none

/-- The zeros before a word can be shifted out, and not one more. -/
theorem toNat_shiftLeft_leadingZeros {n : UInt32} (hn : 0 < n.toNat) :
    (n <<< leadingZeros n).toNat = n.toNat * 2 ^ (leadingZeros n).toNat ∧
      n.toNat.log2 + (leadingZeros n).toNat = 31 := by
  have hzeros : (leadingZeros n).toNat = n.toBitVec.clz.toNat := rfl
  have hbits : n.toBitVec ≠ 0#32 := by
    intro h
    rw [← UInt32.toNat_toBitVec, h] at hn
    exact absurd hn (by decide)
  have hlt : n.toBitVec.clz.toNat < 32 := BitVec.clz_lt_iff_ne_zero.2 hbits
  have hlow : 2 ^ (31 - n.toBitVec.clz.toNat) ≤ n.toNat :=
    BitVec.two_pow_sub_clz_le_toNat_of_ne_zero (by decide) hbits
  have hhigh : n.toNat < 2 ^ (32 - n.toBitVec.clz.toNat) := BitVec.toNat_lt_two_pow_sub_clz
  have hlog : n.toNat.log2 = 31 - n.toBitVec.clz.toNat := by
    rw [Nat.log2_eq_iff hn.ne']
    refine ⟨hlow, hhigh.trans_eq ?_⟩
    congr 1
    omega
  have hfits : n.toNat * 2 ^ n.toBitVec.clz.toNat < 2 ^ 32 := by
    calc n.toNat * 2 ^ n.toBitVec.clz.toNat
        < 2 ^ (32 - n.toBitVec.clz.toNat) * 2 ^ n.toBitVec.clz.toNat :=
          (Nat.mul_lt_mul_right (Nat.two_pow_pos _)).2 hhigh
      _ = 2 ^ 32 := by rw [← Nat.pow_add, Nat.sub_add_cancel hlt.le]
  constructor
  · rw [UInt32.toNat_shiftLeft, hzeros, Nat.mod_eq_of_lt hlt, Nat.shiftLeft_eq,
      Nat.mod_eq_of_lt hfits]
  · omega

theorem indexZone_eq {n : UInt32} (hn : 0 < n.toNat) :
    indexZone n.toNat = ((n <<< leadingZeros n) - 1).toNat := by
  obtain ⟨hshift, hlog⟩ := toNat_shiftLeft_leadingZeros hn
  have hzeros : (leadingZeros n).toNat = 31 - n.toNat.log2 := by omega
  have hone : 1 ≤ n <<< leadingZeros n := by
    rw [UInt32.le_iff_toNat_le, hshift]
    exact Nat.mul_pos hn (Nat.two_pow_pos _)
  rw [indexZone, UInt32.toNat_sub_of_le _ _ hone, hshift, hzeros]
  rfl

theorem wideIndex?_eq {n : UInt32} (hn : 0 < n.toNat) (word : UInt32) :
    wideIndex? n word =
      if word.toNat * n.toNat % UInt32.size ≤ indexZone n.toNat then
        some (UInt32.ofNat (word.toNat * n.toNat / UInt32.size))
      else none := by
  have hproduct : (word.toUInt64 * n.toUInt64).toNat = word.toNat * n.toNat := by
    have hlt : word.toNat * n.toNat < 2 ^ 32 * 2 ^ 32 := Nat.mul_lt_mul'' word.toNat_lt n.toNat_lt
    have hlt : word.toNat * n.toNat < 2 ^ 64 := hlt.trans_eq (by decide)
    rw [UInt64.toNat_mul, UInt32.toNat_toUInt64, UInt32.toNat_toUInt64, Nat.mod_eq_of_lt hlt]
  have hlow : (word.toUInt64 * n.toUInt64).toUInt32 ≤ (n <<< leadingZeros n) - 1 ↔
      word.toNat * n.toNat % UInt32.size ≤ indexZone n.toNat := by
    rw [UInt32.le_iff_toNat_le, UInt64.toNat_toUInt32, hproduct, indexZone_eq hn]
  have hhigh : ((word.toUInt64 * n.toUInt64) >>> 32).toUInt32 =
      UInt32.ofNat (word.toNat * n.toNat / UInt32.size) := by
    rw [← UInt32.toNat_inj, UInt64.toNat_toUInt32, UInt64.toNat_shiftRight, hproduct,
      UInt32.toNat_ofNat', Nat.shiftRight_eq_div_pow]
    rfl
  rw [wideIndex?]
  simp only [hlow, hhigh]

/-- Places are decided on in words of twice the width. -/
theorem map_indexOfWord? {n : UInt32} (pos : 0 < n.toNat) (word : UInt32) :
    (indexOfWord? n.toNat pos word).map (fun i => UInt32.ofNat i.val) = wideIndex? n word := by
  rw [wideIndex?_eq pos, indexOfWord?]
  split <;> rfl

theorem wideIndex?_eq_some_iff {n : UInt32} (hn : 0 < n.toNat) {word i : UInt32} :
    wideIndex? n word = some i ↔
      word.toNat * n.toNat / UInt32.size = i.toNat ∧
        word.toNat * n.toNat % UInt32.size < n.toNat * 2 ^ (leadingZeros n).toNat := by
  obtain ⟨-, hlog⟩ := toNat_shiftLeft_leadingZeros hn
  have hzone : indexZone n.toNat + 1 = n.toNat * 2 ^ (leadingZeros n).toNat := by
    have hzeros : (leadingZeros n).toNat = 31 - n.toNat.log2 := by omega
    rw [indexZone, hzeros]
    exact Nat.sub_add_cancel (Nat.mul_pos hn (Nat.two_pow_pos _))
  have hplace : word.toNat * n.toNat / UInt32.size < UInt32.size :=
    Nat.div_lt_of_lt_mul (Nat.mul_lt_mul'' word.toNat_lt n.toNat_lt)
  rw [wideIndex?_eq hn, Option.ite_none_right_eq_some, Option.some.injEq, ← UInt32.toNat_inj,
    UInt32.toNat_ofNat_of_lt' hplace, and_comm, ← Nat.lt_add_one_iff, hzone]

/-- Each place is decided on by as many words as there are powers of two up to the zeros before `n`. -/
theorem ncard_wideIndex? {n i : UInt32} (hi : i < n) :
    {word | wideIndex? n word = some i}.ncard = 2 ^ (leadingZeros n).toNat := by
  have hi : i.toNat < n.toNat := UInt32.lt_iff_toNat_lt.1 hi
  have hn : 0 < n.toNat := Nat.zero_lt_of_lt hi
  have hfits : n.toNat * 2 ^ (leadingZeros n).toNat ≤ UInt32.size := by
    rw [← (toNat_shiftLeft_leadingZeros hn).1]
    exact (UInt32.toNat_lt _).le
  have hwords := ncard_words32 fun w => w * n.toNat / UInt32.size = i.toNat ∧
    w * n.toNat % UInt32.size < n.toNat * 2 ^ (leadingZeros n).toNat
  simp only [wideIndex?_eq_some_iff hn]
  rw [hwords, card_multiples hn hi hfits]

theorem lt_of_wideIndex? {n word i : UInt32} (hn : 0 < n.toNat) (h : wideIndex? n word = some i) :
    i < n := by
  obtain ⟨hplace, -⟩ := (wideIndex?_eq_some_iff hn).1 h
  rw [UInt32.lt_iff_toNat_lt, ← hplace]
  exact Nat.div_lt_of_lt_mul ((Nat.mul_lt_mul_right hn).2 word.toNat_lt)

/-! ### Counts -/

/-- Low halves in the zone are those below the greatest multiple of `n`. -/
theorem le_countZone_iff {n low : Nat} (hn : 0 < n) (hle : n ≤ UInt64.size) :
    low ≤ countZone n ↔ low < n * (UInt64.size / n) := by
  have hzone : countZone n + 1 = n * (UInt64.size / n) := by
    have hdiv := Nat.div_add_mod UInt64.size n
    have hlt := Nat.mod_lt UInt64.size hn
    rw [countZone, ← Nat.mod_eq_sub_mod hle]
    omega
  rw [← hzone, Nat.lt_add_one_iff]

/-- What is left of the words when the last ones are taken off that do not share out evenly. -/
theorem toNat_countZone {n : UInt64} (hn : 0 < n.toNat) :
    ((-1 : UInt64) - ((-1 : UInt64) - n + 1) % n).toNat = countZone n.toNat := by
  have hlt := n.toNat_lt
  have hgreatest : (-1 : UInt64).toNat = 2 ^ 64 - 1 := rfl
  have hmost (m : UInt64) : m ≤ -1 := by
    rw [UInt64.le_iff_toNat_le, hgreatest]
    exact Nat.le_sub_one_of_lt m.toNat_lt
  have hrest : ((-1 : UInt64) - n + 1).toNat = 2 ^ 64 - n.toNat := by
    have hone : (1 : UInt64).toNat = 1 := rfl
    rw [UInt64.toNat_add, UInt64.toNat_sub_of_le _ _ (hmost n), hgreatest, hone]
    omega
  rw [UInt64.toNat_sub_of_le _ _ (hmost _), UInt64.toNat_mod, hrest, hgreatest]
  rfl

/-- The number of counts, in words. -/
theorem toNat_number {lo hi : UInt64} (le : lo ≤ hi) :
    (hi - lo + 1).toNat = (hi.toNat - lo.toNat + 1) % UInt64.size := by
  rw [UInt64.toNat_add, UInt64.toNat_sub_of_le _ _ le]
  rfl

theorem toNat_product (a b : UInt64) :
    (a.toBitVec.setWidth 128 * b.toBitVec.setWidth 128).toNat = a.toNat * b.toNat := by
  have hlt : a.toNat * b.toNat < 2 ^ 64 * 2 ^ 64 := Nat.mul_lt_mul'' a.toNat_lt b.toNat_lt
  have hwide (c : UInt64) : (c.toBitVec.setWidth 128).toNat = c.toNat := by
    have := c.toNat_lt
    rw [BitVec.toNat_setWidth, UInt64.toNat_toBitVec]
    omega
  rw [BitVec.toNat_mul, hwide, hwide]
  omega

/-- Counts are decided on in words of twice the width. -/
theorem map_countOfWord? {lo hi : UInt64} (le : lo ≤ hi) (word : UInt64) :
    (countOfWord? lo hi le word).map Subtype.val = wideCount? lo hi word := by
  have hnumber := toNat_number le
  rw [countOfWord?, wideCount?]
  by_cases hwhole : hi.toNat - lo.toNat + 1 = UInt64.size
  · have hzero : hi - lo + 1 = 0 := by
      rw [← UInt64.toNat_inj, hnumber, hwhole, Nat.mod_self]
      rfl
    simp [hwhole, hzero]
  · have hlt : hi.toNat - lo.toNat + 1 < UInt64.size := by
      have : hi.toNat < UInt64.size := hi.toNat_lt
      omega
    rw [Nat.mod_eq_of_lt hlt] at hnumber
    have hpos : 0 < (hi - lo + 1).toNat := hnumber ▸ Nat.succ_pos _
    have hne : hi - lo + 1 ≠ 0 := by
      intro h
      rw [h] at hpos
      exact absurd hpos (by decide)
    have hlow : UInt64.ofBitVec ((word.toBitVec.setWidth 128 *
        (hi - lo + 1).toBitVec.setWidth 128).setWidth 64) ≤
          (-1 : UInt64) - ((-1 : UInt64) - (hi - lo + 1) + 1) % (hi - lo + 1) ↔
        word.toNat * (hi.toNat - lo.toNat + 1) % UInt64.size ≤
          countZone (hi.toNat - lo.toNat + 1) := by
      rw [UInt64.le_iff_toNat_le, toNat_countZone hpos, hnumber, UInt64.toNat_ofBitVec,
        BitVec.toNat_setWidth, toNat_product, hnumber]
    have hhigh : lo + UInt64.ofBitVec (((word.toBitVec.setWidth 128 *
        (hi - lo + 1).toBitVec.setWidth 128) >>> 64).setWidth 64) =
        UInt64.ofNat (lo.toNat + word.toNat * (hi.toNat - lo.toNat + 1) / UInt64.size) := by
      have hhalf (x : BitVec 128) : (UInt64.ofBitVec ((x >>> 64).setWidth 64)).toNat =
          x.toNat / UInt64.size % 2 ^ 64 := by
        rw [UInt64.toNat_ofBitVec, BitVec.toNat_setWidth, BitVec.toNat_ushiftRight,
          Nat.shiftRight_eq_div_pow]
      rw [← UInt64.toNat_inj, UInt64.toNat_add, hhalf, toNat_product, hnumber, Nat.add_mod_mod,
        UInt64.toNat_ofNat']
    simp only [dif_neg hwhole, if_neg hne]
    simp only [hlow, hhigh]
    split <;> rfl

theorem bounds_of_wideCount? {lo hi word c : UInt64} (le : lo ≤ hi)
    (h : wideCount? lo hi word = some c) : lo ≤ c ∧ c ≤ hi := by
  rw [← map_countOfWord? le] at h
  obtain ⟨count, -, rfl⟩ := Option.map_eq_some_iff.1 h
  exact count.2

theorem wideCount?_eq_some_iff {lo hi word c : UInt64} (le : lo ≤ hi)
    (hlt : hi.toNat - lo.toNat + 1 < UInt64.size) (hlo : lo ≤ c) :
    wideCount? lo hi word = some c ↔
      word.toNat * (hi.toNat - lo.toNat + 1) / UInt64.size = c.toNat - lo.toNat ∧
        word.toNat * (hi.toNat - lo.toNat + 1) % UInt64.size <
          (hi.toNat - lo.toNat + 1) * (UInt64.size / (hi.toNat - lo.toNat + 1)) := by
  have hlo := UInt64.le_iff_toNat_le.1 hlo
  have hhi := hi.toNat_lt
  have hle := UInt64.le_iff_toNat_le.1 le
  have hplace : word.toNat * (hi.toNat - lo.toNat + 1) / UInt64.size < hi.toNat - lo.toNat + 1 :=
    Nat.div_lt_of_lt_mul ((Nat.mul_lt_mul_right (Nat.succ_pos _)).2 word.toNat_lt)
  have hvalue :
      (UInt64.ofNat (lo.toNat + word.toNat * (hi.toNat - lo.toNat + 1) / UInt64.size)).toNat =
        lo.toNat + word.toNat * (hi.toNat - lo.toNat + 1) / UInt64.size :=
    UInt64.toNat_ofNat_of_lt' (by rw [UInt64.size] at hplace ⊢; omega)
  rw [← map_countOfWord? le, countOfWord?, ← le_countZone_iff (Nat.succ_pos _) hlt.le]
  simp only [dif_neg hlt.ne]
  split
  next hzone =>
    rw [Option.map_some, Option.some.injEq, ← UInt64.toNat_inj, hvalue, and_iff_left hzone]
    omega
  next hzone => simp [hzone]

theorem ncard_wideCount? {lo hi c : UInt64} (hlo : lo ≤ c) (hhi : c ≤ hi) :
    {word | wideCount? lo hi word = some c}.ncard = UInt64.size / (hi.toNat - lo.toNat + 1) := by
  have le := UInt64.le_trans hlo hhi
  have hle := UInt64.le_iff_toNat_le.1 hlo
  have hle' := UInt64.le_iff_toNat_le.1 hhi
  have hsize : hi.toNat - lo.toNat + 1 ≤ UInt64.size := by
    have : hi.toNat < UInt64.size := hi.toNat_lt
    omega
  rcases hsize.eq_or_lt with hwhole | hlt
  · have hword (word : UInt64) : wideCount? lo hi word = some word := by
      rw [← map_countOfWord? le, countOfWord?]
      simp [hwhole]
    simp only [hword, Option.some.injEq, hwhole]
    rw [Nat.div_self (by decide)]
    exact Set.ncard_singleton c
  · have hwords := ncard_words64 fun w =>
      w * (hi.toNat - lo.toNat + 1) / UInt64.size = c.toNat - lo.toNat ∧
        w * (hi.toNat - lo.toNat + 1) % UInt64.size <
          (hi.toNat - lo.toNat + 1) * (UInt64.size / (hi.toNat - lo.toNat + 1))
    simp only [wideCount?_eq_some_iff le hlt hlo]
    rw [hwords, card_multiples (Nat.succ_pos _) (by omega) (Nat.mul_div_le _ _)]

/-! ### The first accepted word -/

namespace WordSource

/-- The source after `k` words. -/
def skip (g : WordSource) : Nat → WordSource
  | 0 => g
  | k + 1 => g.next.2.skip k

/-- The word after `k` others. -/
def word (g : WordSource) (k : Nat) : UInt64 := (g.skip k).next.1

/-- After `k` words that are refused comes one that is accepted and decides on `a`. -/
structure Decides {α : Type} (g : WordSource) (accept : UInt64 → Option α) (k : Nat) (a : α) : Prop where
  refused : ∀ j < k, accept (g.word j) = none
  accepted : accept (g.word k) = some a

variable {α β : Type} {g : WordSource} {accept : UInt64 → Option α} {k : Nat} {a : α}

theorem skip_skip (g : WordSource) (j k : Nat) : (g.skip j).skip k = g.skip (j + k) := by
  induction j generalizing g with
  | zero => rw [skip, Nat.zero_add]
  | succ j ih => rw [skip, ih, Nat.succ_add, skip]

theorem word_zero (g : WordSource) : g.word 0 = g.next.1 := by
  rw [word, skip]

theorem word_succ (g : WordSource) (k : Nat) : g.word (k + 1) = g.next.2.word k := by
  rw [word, word, skip]

-- What `next` computes is kept out of the two steps: unfolded, its arithmetic on 128 bits is what a check
-- would get lost in.
theorem firstAccepted_of_accepted (h : accept g.next.1 = some a) (fuel : Nat) :
    g.firstAccepted accept (fuel + 1) = (some a, g.next.2) := by
  rw [firstAccepted]
  generalize g.next = step at h ⊢
  obtain ⟨word, g⟩ := step
  simp only at h
  simp only [h]

theorem firstAccepted_of_refused (h : accept g.next.1 = none) (fuel : Nat) :
    g.firstAccepted accept (fuel + 1) = g.next.2.firstAccepted accept fuel := by
  rw [firstAccepted]
  generalize g.next = step at h ⊢
  obtain ⟨word, g⟩ := step
  simp only at h
  simp only [h]

theorem firstAccepted_of_decides (h : g.Decides accept k a) {fuel : Nat} (hk : k < fuel) :
    g.firstAccepted accept fuel = (some a, g.skip (k + 1)) := by
  induction k generalizing g fuel with
  | zero =>
    obtain ⟨fuel, rfl⟩ := Nat.exists_eq_succ_of_ne_zero hk.ne'
    have haccepted := h.accepted
    rw [word_zero] at haccepted
    rw [firstAccepted_of_accepted haccepted, skip, skip]
  | succ k ih =>
    obtain ⟨fuel, rfl⟩ := Nat.exists_eq_succ_of_ne_zero (Nat.zero_lt_of_lt hk).ne'
    have hrefused := h.refused 0 (Nat.succ_pos k)
    rw [word_zero] at hrefused
    have hnext : g.next.2.Decides accept k a :=
      ⟨fun j hj => word_succ g j ▸ h.refused (j + 1) (Nat.succ_lt_succ hj),
        word_succ g k ▸ h.accepted⟩
    rw [firstAccepted_of_refused hrefused, skip]
    exact ih hnext (Nat.lt_of_succ_lt_succ hk)

/-- Up to the first accepted word the source does not come back to where it was: from there on it would
only repeat itself. -/
theorem Decides.skip_ne (h : g.Decides accept k a) {i j : Nat} (hij : i < j) (hjk : j ≤ k) :
    g.skip i ≠ g.skip j := by
  intro heq
  have hword : g.word (i + (k - j)) = g.word k := by
    rw [word, word, ← skip_skip, heq, skip_skip, Nat.add_sub_cancel' hjk]
  have hrefused := h.refused (i + (k - j)) (by omega)
  rw [hword, h.accepted] at hrefused
  cases hrefused

/-- A word that is accepted comes before the states of the source are used up. -/
theorem Decides.lt_of_states {states : Nat} (hstates : ∀ g : WordSource, g.state.toNat < states)
    (h : g.Decides accept k a) : k < states := by
  by_contra hk
  have hcard : (Finset.range states).card < (Finset.range (states + 1)).card := by
    rw [Finset.card_range, Finset.card_range]
    exact Nat.lt_succ_self states
  have hmaps : Set.MapsTo (fun i => (g.skip i).state.toNat) (Finset.range (states + 1))
      (Finset.range states) := fun i _ => by simpa using hstates (g.skip i)
  obtain ⟨i, hi, j, hj, hne, heq⟩ := Finset.exists_ne_map_eq_of_card_lt_of_maps_to hcard hmaps
  have hsame : g.skip i = g.skip j := congrArg WordSource.mk (BitVec.eq_of_toNat_eq heq)
  rw [Finset.mem_range] at hi hj
  rcases Nat.lt_or_gt_of_ne hne with hlt | hlt
  · exact h.skip_ne hlt (by omega) hsame
  · exact h.skip_ne hlt (by omega) hsame.symm

theorem Decides.of_map {f : α → β} {b : β} (h : g.Decides (fun word => (accept word).map f) k b) :
    ∃ a, f a = b ∧ g.Decides accept k a := by
  obtain ⟨a, haccepted, hvalue⟩ := Option.map_eq_some_iff.1 h.accepted
  exact ⟨a, hvalue, fun j hj => Option.map_eq_none_iff.1 (h.refused j hj), haccepted⟩

/-- The place that a source decides on is that of its first accepted word. -/
theorem index_of_decides {n i : UInt32} (pos : 0 < n.toNat)
    (h : g.Decides (fun word => wideIndex? n word.toUInt32) k i) :
    ∃ hi : i.toNat < n.toNat, Chooser.index n.toNat pos g = (⟨i.toNat, hi⟩, g.skip (k + 1)) := by
  simp only [← map_indexOfWord? pos] at h
  obtain ⟨place, rfl, hplace⟩ := h.of_map
  have hvalue : (UInt32.ofNat place.val).toNat = place.val :=
    UInt32.toNat_ofNat_of_lt' (place.isLt.trans n.toNat_lt)
  refine ⟨hvalue.symm ▸ place.isLt, ?_⟩
  simp only [hvalue]
  exact index_of_firstAccepted (hplace.lt_of_states fun g => g.state.isLt)
    fun _ hfuel => firstAccepted_of_decides hplace hfuel

/-- The count that a source decides on is that of its first accepted word. -/
theorem count_of_decides {lo hi c : UInt64} (le : lo ≤ hi) (h : g.Decides (wideCount? lo hi) k c) :
    ∃ hc : lo ≤ c ∧ c ≤ hi, Chooser.count lo hi le g = (⟨c, hc⟩, g.skip (k + 1)) := by
  have hwide : g.Decides (fun word => (countOfWord? lo hi le word).map Subtype.val) k c := by
    simpa only [map_countOfWord?] using h
  obtain ⟨count, rfl, hcount⟩ := hwide.of_map
  exact ⟨count.2, count_of_firstAccepted (hcount.lt_of_states fun g => g.state.isLt)
    fun _ hfuel => firstAccepted_of_decides hcount hfuel⟩

end WordSource

/-! ### Steps that decide -/

section

variable {s : Setting} {counters : List UInt64} {p : Progress WordSource} {k : Nat}

/-- Only the number of members matters for the choice. -/
theorem draw_eq {σ : Type} [Chooser σ] {chars : CharSet} {n : Nat} (hsize : chars.chars.size = n)
    (hpos : 0 < n) (g : σ) :
    chars.draw g = (chars.chars[(Chooser.index n hpos g).1.val]?, (Chooser.index n hpos g).2) := by
  subst hsize
  simp [CharSet.draw, hpos]

theorem evalStep_oneOf_of_decides {chars : CharSet} {n i : UInt32} (hn : 0 < n)
    (hsize : chars.chars.size = n.toNat)
    (h : p.chooser.Decides (fun word => wideIndex? n word.toUInt32) k i) :
    ∃ c, chars.chars[i.toNat]? = some c ∧ evalStep s counters (.oneOf chars) p =
      (.ok (String.singleton c), { p with chooser := p.chooser.skip (k + 1) }) := by
  have hpos : 0 < n.toNat := UInt32.lt_iff_toNat_lt.1 hn
  obtain ⟨hi, hindex⟩ := WordSource.index_of_decides hpos h
  have hi' : i.toNat < chars.chars.size := hsize ▸ hi
  refine ⟨chars.chars[i.toNat], Array.getElem?_eq_getElem hi', ?_⟩
  simp [evalStep, CharSet.drawText, draw_eq hsize hpos, hindex, hi']

theorem evalStep_alternation_of_decides {branches : List (List Step)} {n i : UInt32} (hn : 0 < n)
    (hlength : branches.length = n.toNat)
    (h : p.chooser.Decides (fun word => wideIndex? n word.toUInt32) k i) :
    ∃ branch, branches[i.toNat]? = some branch ∧ evalStep s counters (.alternation branches) p =
      evalSteps s counters "" branch { p with chooser := p.chooser.skip (k + 1) } := by
  have hpos : 0 < n.toNat := UInt32.lt_iff_toNat_lt.1 hn
  obtain ⟨hi, hindex⟩ := WordSource.index_of_decides hpos h
  have hi' : i.toNat < branches.length := hlength ▸ hi
  refine ⟨branches[i.toNat], List.getElem?_eq_getElem hi', ?_⟩
  rw [evalStep_alternation s hlength hpos, hindex]
  exact evalBranch_eq_evalSteps s counters hi' _

theorem evalStep_repetition_of_decides {step : Step} {bounds : Bounds} {construct : String}
    {r : CountRange} {c : UInt64} (hrange : s.countRange counters construct bounds = .ok r)
    (h : p.chooser.Decides (wideCount? r.lo r.hi) k c) :
    evalStep s counters (.repetition step bounds construct) p =
      joinLoop (fun i p => evalStep s (i :: counters) step p) "" 0 c.toNat
        { p with chooser := p.chooser.skip (k + 1) } := by
  obtain ⟨hc, hcount⟩ := WordSource.count_of_decides r.le h
  simp only [evalStep, hrange, hcount]

/-- Every word that decides on a place decides on one that there is, and every place has equally many words;
so it is with counts, up to the whole range of words. What a character set, an alternation or a repetition
takes from a seeded source is what its first word decides on that is not refused. -/
theorem draws_uniform :
    (∀ n : UInt32, 0 < n →
      (∀ word i, wideIndex? n word = some i → i < n) ∧
        ∀ i < n, {word | wideIndex? n word = some i}.ncard = 2 ^ (leadingZeros n).toNat) ∧
    (∀ lo hi : UInt64, lo ≤ hi →
      (∀ word c, wideCount? lo hi word = some c → lo ≤ c ∧ c ≤ hi) ∧
        ∀ c, lo ≤ c → c ≤ hi →
          {word | wideCount? lo hi word = some c}.ncard = UInt64.size / (hi.toNat - lo.toNat + 1)) ∧
    ∀ (s : Setting) (counters : List UInt64) (p : Progress WordSource) (k : Nat),
      (∀ (chars : CharSet) (n i : UInt32), 0 < n → chars.chars.size = n.toNat →
        p.chooser.Decides (fun word => wideIndex? n word.toUInt32) k i →
        ∃ c, chars.chars[i.toNat]? = some c ∧ evalStep s counters (.oneOf chars) p =
          (.ok (String.singleton c), { p with chooser := p.chooser.skip (k + 1) })) ∧
      (∀ (branches : List (List Step)) (n i : UInt32), 0 < n → branches.length = n.toNat →
        p.chooser.Decides (fun word => wideIndex? n word.toUInt32) k i →
        ∃ branch, branches[i.toNat]? = some branch ∧ evalStep s counters (.alternation branches) p =
          evalSteps s counters "" branch { p with chooser := p.chooser.skip (k + 1) }) ∧
      ∀ (step : Step) (bounds : Bounds) (construct : String) (r : CountRange) (c : UInt64),
        s.countRange counters construct bounds = .ok r →
        p.chooser.Decides (wideCount? r.lo r.hi) k c →
        evalStep s counters (.repetition step bounds construct) p =
          joinLoop (fun i p => evalStep s (i :: counters) step p) "" 0 c.toNat
            { p with chooser := p.chooser.skip (k + 1) } := by
  refine ⟨fun n hn =>
      ⟨fun word i => lt_of_wideIndex? (UInt32.lt_iff_toNat_lt.1 hn), fun i => ncard_wideIndex?⟩,
    fun lo hi le => ⟨fun word c => bounds_of_wideCount? le, fun c => ncard_wideCount?⟩,
    fun s counters p k => ⟨?_, ?_, ?_⟩⟩
  · intro chars n i hn hsize h
    exact evalStep_oneOf_of_decides hn hsize h
  · intro branches n i hn hlength h
    exact evalStep_alternation_of_decides hn hlength h
  · intro step bounds construct r c hrange h
    exact evalStep_repetition_of_decides hrange h

/-- Three letters have a quarter of the words each, and a count out of all has one word. This source's first
word is refused for three letters, and its second decides on the last of them. -/
theorem draws_uniform_three_letters :
    {word | wideIndex? 3 word = some 2}.ncard = 2 ^ (leadingZeros 3).toNat ∧
      {word | wideCount? 0 (-1) word = some 7}.ncard = UInt64.size / ((-1 : UInt64).toNat - 0 + 1) ∧
      ∃ c, (CharSet.ofChars ['a', 'b', 'c']).chars[(2 : UInt32).toNat]? = some c ∧
        evalStep ⟨100, 0, #[], #[]⟩ [] (.oneOf (.ofChars ['a', 'b', 'c']))
            (⟨.ofSeed 0, #[], none⟩ : Progress WordSource) =
          (.ok (String.singleton c), ⟨(WordSource.ofSeed 0).skip 2, #[], none⟩) := by
  refine ⟨(draws_uniform.1 3 (by decide)).2 2 (by decide),
    (draws_uniform.2.1 0 (-1) (by decide)).2 7 (by decide) (by decide), ?_⟩
  have hsize : (CharSet.ofChars ['a', 'b', 'c']).chars.size = 3 := by cbv
  have hdecides : (WordSource.ofSeed 0).Decides (fun word => wideIndex? 3 word.toUInt32) 1 2 :=
    ⟨by decide +kernel, by decide +kernel⟩
  exact (draws_uniform.2.2 ⟨100, 0, #[], #[]⟩ [] ⟨.ofSeed 0, #[], none⟩ 1).1 _ 3 2 (by decide) hsize
    hdecides

end

end PatternText
