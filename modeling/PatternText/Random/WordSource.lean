/-! A reproducible source of 64-bit words: a multiplicative congruential generator on 128-bit states.
Each step multiplies the state, folds its two halves onto each other and rotates the result by the
six highest bits. A seed is spread over the state by four steps of a 64-bit linear congruential
generator, and the lowest bit is set, since only odd states have the full period. -/

namespace PatternText

/-- A place in the sequence of random words. -/
structure WordSource where
  state : BitVec 128
  deriving DecidableEq, Repr

namespace WordSource

private def multiplier : BitVec 128 := 0x2360ED051FC65DA44385DF649FCCF645

/-- One step of the generator that spreads a seed. -/
private def spread (s : BitVec 64) : BitVec 64 :=
  s * 6364136223846793005 + 11634580027462260723

/-- The 32 bits of the state that a spreading step contributes. -/
private def chunk (s : BitVec 64) : BitVec 32 :=
  (((s >>> 18) ^^^ s) >>> 27 |>.setWidth 32).rotateRight (s >>> 59).toNat

/-- The source that a seed stands for. The first chunk fills the lowest bits. -/
def ofSeed (seed : UInt64) : WordSource :=
  let a := spread seed.toBitVec
  let b := spread a
  let c := spread b
  let d := spread c
  ⟨(chunk d ++ chunk c ++ chunk b ++ chunk a) ||| 1⟩

/-- The next word, and the source after it. -/
def next (g : WordSource) : UInt64 × WordSource :=
  let s := g.state * multiplier
  let folded := (s >>> 64).setWidth 64 ^^^ s.setWidth 64
  (UInt64.ofBitVec (folded.rotateRight (s >>> 122).toNat), ⟨s⟩)

/-- The value of the first word that `accept` takes, after at most `fuel` words. -/
def firstAccepted {α : Type} (accept : UInt64 → Option α) : Nat → WordSource → Option α × WordSource
  | 0, g => (none, g)
  | fuel + 1, g =>
    let (word, g) := g.next
    match accept word with
    | some a => (some a, g)
    | none => firstAccepted accept fuel g

end WordSource

end PatternText
