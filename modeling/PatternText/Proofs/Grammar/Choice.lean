import PatternText.Proofs.Grammar.Longest

/-! Choosing a production. A production that takes more than the ones before it, and no less than the
ones after it, gives the longest match. Most productions are out of the question from the first one or
two characters on: a look through the terminals at the front of a non-terminal shows what beginnings of
a text it refuses. -/

namespace PatternText

/-- The first least element of a list, with what comes before it above and what comes after it not
below. -/
theorem argmin_append_cons {α : Type} {f : α → Nat} {before after : List α} {a : α}
    (hbefore : ∀ b ∈ before, f a < f b) (hafter : ∀ b ∈ after, f a ≤ f b) :
    (before ++ a :: after).argmin f = some a := by
  induction after using List.reverseRecOn with
  | nil =>
    rw [List.argmin_concat]
    cases hmin : before.argmin f with
    | none => rfl
    | some b => exact if_pos (hbefore b (List.argmin_mem hmin))
  | append_singleton after b ih =>
    rw [← List.cons_append, ← List.append_assoc, List.argmin_concat,
      ih fun b hb => hafter b (List.mem_append_left _ hb)]
    exact if_neg (Nat.not_lt.2 (hafter b (List.mem_append_right _ List.mem_cons_self)))

namespace Grammar

variable {g : Grammar}

/-- A production that takes more than those before it and no less than those after it is the match. -/
theorem readProductions_of_best {f : Reader} {id : Nat} {cs rest : List Char}
    {before after : List (List Symbol)} {production : List Symbol} {trees : List ParseTree}
    (hsplit : g.productionsOf id = before ++ production :: after)
    (hread : readSymbols f production cs = some (trees, rest))
    (hbefore : ∀ p ∈ before, ∀ m, readSymbols f p cs = some m → rest.length < m.2.length)
    (hafter : ∀ p ∈ after, ∀ m, readSymbols f p cs = some m → rest.length ≤ m.2.length) :
    g.readProductions f id cs = some (.node (g.nameOf id) trees, rest) := by
  have hcons : (production :: after).filterMap (readSymbols f · cs) =
      (trees, rest) :: after.filterMap (readSymbols f · cs) := by
    rw [List.filterMap_cons, hread]
  rw [readProductions, hsplit, List.filterMap_append, hcons, argmin_append_cons, Option.map_some]
  · intro m hm
    obtain ⟨p, hp, hpm⟩ := List.mem_filterMap.1 hm
    exact hbefore p hp m hpm
  · intro m hm
    obtain ⟨p, hp, hpm⟩ := List.mem_filterMap.1 hm
    exact hafter p hp m hpm

theorem readProductions_of_none {f : Reader} {id : Nat} {cs : List Char}
    (h : ∀ p ∈ g.productionsOf id, readSymbols f p cs = none) :
    g.readProductions f id cs = none := by
  rw [readProductions, List.filterMap_eq_nil_iff.2 h]
  rfl

/-! ### Refused beginnings -/

/-- Whether no character is accepted by both terminals, as far as their listed characters tell. -/
def disjoint : Terminal → Terminal → Bool
  | .oneOf chars, t => chars.all fun c => !t.accepts c
  | t, .oneOf chars => chars.all fun c => !t.accepts c
  | _, _ => false

theorem accepts_eq_false_of_disjoint {t t' : Terminal} (h : disjoint t t' = true) {c : Char}
    (hc : t'.accepts c = true) : t.accepts c = false := by
  have hlisted {chars : List Char} {t : Terminal} (hall : (chars.all fun c => !t.accepts c) = true)
      (hmem : (Terminal.oneOf chars).accepts c = true) : t.accepts c = false := by
    have := List.all_eq_true.1 hall c (List.contains_iff_mem.1 hmem)
    rwa [Bool.not_eq_true'] at this
  by_contra hne
  have ht := Bool.not_eq_false _ ▸ hne
  cases t with
  | oneOf chars =>
    rw [disjoint] at h
    rw [hlisted h ht] at hc
    cases hc
  | noneOf chars | epsilon =>
    cases t' with
    | oneOf chars' => exact hne (hlisted h hc)
    | noneOf _ | epsilon => cases h

/-- Whether the text begins with characters that these terminals accept one after the other. -/
def beginsIn : List Terminal → List Char → Bool
  | [], _ => true
  | _ :: _, [] => false
  | t :: ts, c :: cs => t.accepts c && beginsIn ts cs

theorem beginsIn_oneOf {chars : List Char} {ts : List Terminal} {c : Char} {cs : List Char}
    (hc : c ∈ chars) (hcs : beginsIn ts cs = true) :
    beginsIn (.oneOf chars :: ts) (c :: cs) = true := by
  rw [beginsIn, Terminal.accepts, List.contains_iff_mem.2 hc, hcs]
  rfl

theorem beginsIn_noneOf {chars : List Char} {ts : List Terminal} {c : Char} {cs : List Char}
    (hc : c ∉ chars) (hcs : beginsIn ts cs = true) :
    beginsIn (.noneOf chars :: ts) (c :: cs) = true := by
  rw [← List.contains_iff_mem, Bool.not_eq_true] at hc
  rw [beginsIn, Terminal.accepts, hc, hcs]
  rfl

/-- Whether the symbols match no text with such a beginning, where `inner` tells so for the
non-terminals. Nothing is known of the text behind the first non-terminal. -/
def refusesWith (inner : Nat → List Terminal → Bool) : List Symbol → List Terminal → Bool
  | .terminal .epsilon :: symbols, known => refusesWith inner symbols known
  | .terminal terminal :: symbols, t :: known =>
    disjoint terminal t || refusesWith inner symbols known
  | .nonTerminal id :: _, known => inner id known
  | _, _ => false

/-- Whether a non-terminal matches no text with such a beginning, as all its productions show, looked
up through chains of the given length. -/
def refuses (g : Grammar) : Nat → Nat → List Terminal → Bool
  | 0, _, _ => false
  | depth + 1, id, known =>
    (g.productionsOf id).all fun production => refusesWith (g.refuses depth) production known

theorem readSymbols_eq_none_of_refusesWith {f : Reader} {inner : Nat → List Terminal → Bool}
    (hinner : ∀ id known cs, inner id known = true → beginsIn known cs = true → f id cs = none)
    {symbols : List Symbol} {known : List Terminal} {cs : List Char}
    (h : refusesWith inner symbols known = true) (hcs : beginsIn known cs = true) :
    readSymbols f symbols cs = none := by
  fun_induction refusesWith inner symbols known generalizing cs with
  | case1 symbols known ih =>
    simp only [readSymbols, readSymbol, readTerminal, ih h hcs, Option.map_none]
  | case2 symbols terminal t known hne ih =>
    cases cs with
    | nil => cases hcs
    | cons c cs =>
      rw [beginsIn, Bool.and_eq_true] at hcs
      rw [readSymbols, readSymbol, readTerminal]
      · rcases Bool.or_eq_true_iff.1 h with hdisjoint | hrest
        · rw [accepts_eq_false_of_disjoint hdisjoint hcs.1]
          rfl
        · split
          · rfl
          next hread =>
            rw [Option.ite_none_right_eq_some, Option.some.injEq, Prod.mk.injEq] at hread
            rw [← hread.2.2, ih hrest hcs.2, Option.map_none]
      · exact fun h => hne h
  | case3 id symbols known => rw [readSymbols, readSymbol, hinner id known cs h hcs]
  | case4 => cases h

theorem longest_eq_none_of_refuses (hg : ¬g.LeftRecursive) {depth id : Nat} {known : List Terminal}
    {cs : List Char} (h : g.refuses depth id known = true) (hcs : beginsIn known cs = true) :
    g.longest id cs = none := by
  induction depth generalizing id known cs with
  | zero => cases h
  | succ depth ih =>
    rw [longest_eq hg]
    apply readProductions_of_none
    intro production hmem
    have hinner : ∀ b known rest, g.refuses depth b known = true → beginsIn known rest = true →
        g.longest b rest = none := fun _ _ _ hknown hrest => ih hknown hrest
    exact readSymbols_eq_none_of_refusesWith hinner (List.all_eq_true.1 h production hmem) hcs

/-- At the end of the text only what can match the empty text matches. -/
theorem readSymbols_nil_eq_none {nullable rank : List Nat}
    (hg : g.isRankedBy nullable rank = true) {symbols : List Symbol}
    (h : symbols.all (nullableIn nullable) = false) : readSymbols g.longest symbols [] = none := by
  refine Option.eq_none_iff_forall_ne_some.2 fun ⟨trees, rest⟩ hread => ?_
  obtain ⟨hsuffix, hall⟩ := readSymbols_progress progressive_longest hread
  have htrue : symbols.all (nullableIn nullable) = true := List.all_eq_true.2 fun s hs =>
    nullableIn_of_nullable hg (hall (List.suffix_nil.1 hsuffix) s hs)
  rw [htrue] at h
  cases h

end Grammar

end PatternText
