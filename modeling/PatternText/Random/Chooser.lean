import PatternText.CharSet
import PatternText.Random.WordSource

/-! Random decisions. Generation needs two of them, one of finitely many places and a count from a
closed interval, and is written for any source that settles both. The seeded source settles them by
widening multiplication: the word times the number of choices, of which the high half is the choice,
is accepted while the low half stays in a zone that is cut so that every choice has equally many
accepted words. Places take 32-bit words and a zone given by shifting, counts 64-bit words and a zone
given by the remainder. -/

namespace PatternText

/-- Sources of random decisions. -/
class Chooser (σ : Type) where
  /-- One of `n` places, and the source after the decision. -/
  index (n : Nat) (pos : 0 < n) : σ → Fin n × σ
  /-- A count from `lo` to `hi`, and the source after the decision. -/
  count (lo hi : UInt64) (le : lo ≤ hi) : σ → { c : UInt64 // lo ≤ c ∧ c ≤ hi } × σ

/-- Sources that a seed starts. -/
class Seeded (σ : Type) where
  ofSeed : UInt64 → σ

@[default_instance]
instance : Seeded WordSource := ⟨WordSource.ofSeed⟩

/-- The greatest low half at which a word decides between `n` places, for `n` below `2 ^ 32`. -/
def indexZone (n : Nat) : Nat :=
  n * Nat.pow 2 (31 - n.log2) - 1

/-- The place among `n` that a 32-bit word decides on, if it is accepted. -/
def indexOfWord? (n : Nat) (pos : 0 < n) (word : UInt32) : Option (Fin n) :=
  if word.toNat * n % UInt32.size ≤ indexZone n then
    some ⟨word.toNat * n / UInt32.size, by
      have := word.toNat_lt
      exact Nat.div_lt_of_lt_mul ((Nat.mul_lt_mul_right pos).2 this)⟩
  else none

/-- The greatest low half at which a word decides between `n` counts. -/
def countZone (n : Nat) : Nat :=
  (UInt64.size - 1) - (UInt64.size - n) % n

/-- The count from `lo` to `hi` that a 64-bit word decides on, if it is accepted. The whole range of
words takes every word as it is. -/
def countOfWord? (lo hi : UInt64) (le : lo ≤ hi) (word : UInt64) :
    Option { c : UInt64 // lo ≤ c ∧ c ≤ hi } :=
  let n := hi.toNat - lo.toNat + 1
  if h : n = UInt64.size then
    some ⟨word, by
      have := hi.toNat_lt
      have := word.toNat_lt
      simp only [UInt64.le_iff_toNat_le]
      rw [UInt64.size] at h
      omega⟩
  else if word.toNat * n % UInt64.size ≤ countZone n then
    some ⟨UInt64.ofNat (lo.toNat + word.toNat * n / UInt64.size), by
      have hlo := UInt64.le_iff_toNat_le.1 le
      have hhi := hi.toNat_lt
      have : word.toNat * n / UInt64.size < n :=
        Nat.div_lt_of_lt_mul ((Nat.mul_lt_mul_right (by omega)).2 word.toNat_lt)
      simp only [UInt64.le_iff_toNat_le, UInt64.toNat_ofNat']
      rw [UInt64.size] at this ⊢
      omega⟩
  else none

namespace WordSource

/-- More words than the source has states: a decision that refuses them all never ends. -/
private def patience : Nat := Nat.pow 2 128

/-- What the first accepted word decides on, and the source after it. A source that comes to no accepted
word within `fuel` words decides on `fallback`. -/
def firstOr {α : Type} (g : WordSource) (accept : UInt64 → Option α) (fallback : α) (fuel : Nat) :
    α × WordSource :=
  let (a, g) := g.firstAccepted accept fuel
  (a.getD fallback, g)

instance : Chooser WordSource where
  index n pos g := g.firstOr (fun word => indexOfWord? n pos word.toUInt32) ⟨0, pos⟩ patience
  count lo hi le g := g.firstOr (countOfWord? lo hi le) ⟨lo, UInt64.le_refl lo, le⟩ patience

section

variable {g g' : WordSource} {k : Nat}

theorem firstOr_of_firstAccepted {α : Type} {accept : UInt64 → Option α} {a : α} {fuel : Nat}
    (h : g.firstAccepted accept fuel = (some a, g')) (fallback : α) :
    g.firstOr accept fallback fuel = (a, g') := by
  rw [firstOr, h]
  rfl

/-- A word that is accepted before patience runs out settles a place. The hypothesis speaks of every fuel
beyond `k`, since at `patience` itself it could only be checked by running that far. -/
theorem index_of_firstAccepted {n : Nat} {pos : 0 < n} {i : Fin n} (hk : k < Nat.pow 2 128)
    (h : ∀ fuel, k < fuel →
      g.firstAccepted (fun word => indexOfWord? n pos word.toUInt32) fuel = (some i, g')) :
    Chooser.index n pos g = (i, g') :=
  firstOr_of_firstAccepted (h patience hk) ⟨0, pos⟩

theorem count_of_firstAccepted {lo hi : UInt64} {le : lo ≤ hi} {c : { c : UInt64 // lo ≤ c ∧ c ≤ hi }}
    (hk : k < Nat.pow 2 128)
    (h : ∀ fuel, k < fuel → g.firstAccepted (countOfWord? lo hi le) fuel = (some c, g')) :
    Chooser.count lo hi le g = (c, g') :=
  firstOr_of_firstAccepted (h patience hk) ⟨lo, UInt64.le_refl lo, le⟩

end

end WordSource

/-- A member drawn at random; the empty set has none and takes no decision. -/
def CharSet.draw {σ : Type} [Chooser σ] (s : CharSet) (g : σ) : Option Char × σ :=
  if h : 0 < s.chars.size then
    let (i, g) := Chooser.index s.chars.size h g
    (some s.chars[i], g)
  else (none, g)

/-- A member drawn at random as a text, empty for the empty set. -/
def CharSet.drawText {σ : Type} [Chooser σ] (s : CharSet) (g : σ) : String × σ :=
  let (c, g) := s.draw g
  ((c.map String.singleton).getD "", g)

end PatternText
