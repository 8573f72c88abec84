import Mathlib.Data.List.Basic
import Mathlib.Data.List.Induction

/-! Rows without their repetitions. What is left of a row are its members, each once, in the order of
their first occurrences. -/

namespace PatternText

section

variable {α : Type} [BEq α] [LawfulBEq α]

theorem eraseDups_append_singleton (row : List α) (a : α) :
    (row ++ [a]).eraseDups = if a ∈ row then row.eraseDups else row.eraseDups ++ [a] := by
  rw [List.eraseDups_append]
  split
  next ha => simp [List.removeAll, ha]
  next ha => simp [List.removeAll, ha, List.eraseDups_cons]

theorem pairwise_idxOf_eraseDups (row : List α) :
    row.eraseDups.Pairwise fun a b => row.idxOf a < row.idxOf b := by
  induction row using List.reverseRecOn with
  | nil => exact List.Pairwise.nil
  | append_singleton row a ih =>
    have hbefore : row.eraseDups.Pairwise fun b c => (row ++ [a]).idxOf b < (row ++ [a]).idxOf c := by
      refine ih.imp_of_mem fun {b c} hb hc hlt => ?_
      rwa [List.idxOf_append_of_mem (List.mem_eraseDups.1 hb),
        List.idxOf_append_of_mem (List.mem_eraseDups.1 hc)]
    rw [eraseDups_append_singleton]
    split
    next => exact hbefore
    next ha =>
      rw [List.pairwise_append]
      refine ⟨hbefore, List.pairwise_singleton _ _, fun b hb c hc => ?_⟩
      obtain rfl := List.mem_singleton.1 hc
      have hb := List.mem_eraseDups.1 hb
      rw [List.idxOf_append_of_mem hb, List.idxOf_append_of_notMem ha]
      exact Nat.lt_add_right _ (List.idxOf_lt_length_of_mem hb)

theorem nodup_eraseDups (row : List α) : row.eraseDups.Nodup :=
  (pairwise_idxOf_eraseDups row).imp fun hlt heq => absurd (heq ▸ hlt) (Nat.lt_irrefl _)

/-- Where no member stands twice each occurrence is the first one. -/
theorem eraseDups_of_nodup {row : List α} (h : row.Nodup) : row.eraseDups = row := by
  induction row using List.reverseRecOn with
  | nil => rfl
  | append_singleton row a ih =>
    obtain ⟨hrow, -, hdisjoint⟩ := List.nodup_append.1 h
    have ha : a ∉ row := fun ha => hdisjoint a ha a (List.mem_singleton_self a) rfl
    rw [eraseDups_append_singleton, if_neg ha, ih hrow]

end

end PatternText
