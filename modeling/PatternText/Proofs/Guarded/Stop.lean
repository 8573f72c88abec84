import PatternText.Number.Exact

/-! Partial operations. A guarded computation looks, wherever an operation is not defined for all its
operands, whether it is asked for something that there is: a part of a text that begins and ends between
two characters, an element that exists, a closed interval that is not empty. If there is no such thing it
stops with a breach. It also stops at two limits that callers have to keep, and then the stop holds the
proof that the limit was passed. A computation is safe if it never stops with a breach, and what it
yields, unless a limit stops it, is as claimed. -/

namespace PatternText

/-- What was asked for and does not exist. -/
inductive Breach where
  /-- A place of a text, in bytes, that lies in or behind its characters. -/
  | offset (bytes : Nat)
  | nonTerminal (id : Nat)
  | child (place : Nat)
  /-- The slot of a group. -/
  | slot (id : Nat)
  /-- The captured text in a slot. -/
  | capture (slot : Nat)
  | interval (lo hi : UInt64)
  | counter (place : Nat)
  /-- The digits before so many decimal places. -/
  | digits (places : Nat)
  deriving DecidableEq, Repr

/-- What callers have to keep to. -/
inductive Limit where
  /-- So many decimal places are more than a width can be. -/
  | places (count : Nat) (h : 65535 ≤ count)
  /-- This number of loops outwards is the greatest word, so one more is none. -/
  | levels (level : UInt64) (h : level.toNat + 1 = UInt64.size)

inductive Stop where
  | breach (breach : Breach)
  | limit (limit : Limit)

/-- A computation that stops where a partial operation has no result. -/
abbrev Guarded (α : Type) := Except Stop α

variable {α β : Type}

/-- What a partial operation yields, and a breach if it has no result. -/
def require (breach : Breach) : Option α → Guarded α
  | some a => .ok a
  | none => .error (.breach breach)

theorem require_some {breach : Breach} {x : Option α} {a : α} (h : x = some a) :
    require breach x = .ok a := by
  rw [h]
  rfl

/-- No breach is committed, and the result is as `P` says unless a limit was passed. -/
def Safe (x : Guarded α) (P : α → Prop) : Prop :=
  match x with
  | .ok a => P a
  | .error (.limit _) => True
  | .error (.breach _) => False

theorem safe_ok {a : α} {P : α → Prop} (h : P a) : Safe (.ok a) P := h

theorem Safe.mono {x : Guarded α} {P Q : α → Prop} (h : Safe x P) (himp : ∀ a, P a → Q a) :
    Safe x Q := by
  cases x with
  | ok a => exact himp a h
  | error stop =>
    cases stop with
    | limit _ => trivial
    | breach _ => exact h

/-- What follows a safe computation has to be safe for its results only. -/
theorem Safe.bind {x : Guarded α} {f : α → Guarded β} {P : α → Prop} {Q : β → Prop} (h : Safe x P)
    (hnext : ∀ a, P a → Safe (f a) Q) : Safe (x >>= f) Q := by
  cases x with
  | ok a => exact hnext a h
  | error stop =>
    cases stop with
    | limit _ => trivial
    | breach _ => exact h

/-- Where no limit was passed there is a result. -/
theorem Safe.exists_ok {x : Guarded α} {P : α → Prop} (h : Safe x P)
    (hlimit : ∀ limit, x ≠ .error (.limit limit)) : ∃ a, x = .ok a ∧ P a := by
  cases x with
  | ok a => exact ⟨a, rfl, h⟩
  | error stop =>
    cases stop with
    | limit limit => exact absurd rfl (hlimit limit)
    | breach _ => exact h.elim

end PatternText
