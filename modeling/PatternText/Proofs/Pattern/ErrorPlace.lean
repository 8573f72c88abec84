import PatternText.Proofs.Pattern.Completeness

/-! Where the reading of a text stops. In front of any tail the longest match of a pattern takes at
least the pattern: a tail can lengthen the last row of factors, or the last quantifiers of it, but
nothing in it changes how the bases, groups and lists before it are read. So what a failed parse has
consumed is the longest beginning of the text that is a pattern. -/

namespace PatternText

open Grammar

namespace Part

open PatternText.Symbol

variable {p : Part} {cs rest : List Char}

/-- The longest match of the part leaves no more than `n` characters. -/
def LeavesAtMost (p : Part) (cs : List Char) (n : Nat) : Prop :=
  ∃ tree rest, p.reads cs = some (tree, rest) ∧ rest.length ≤ n

/-- The best production leaves no more than any other one. -/
theorem leavesAtMost_of_row {production : List Symbol} {trees : List ParseTree} {n : Nat}
    (hmem : production ∈ p.productions) (hrow : row production cs = some (trees, rest))
    (hle : rest.length ≤ n) : p.LeavesAtMost cs n := by
  have hcandidate : (trees, rest) ∈
      (patternGrammar.productionsOf p.ctorIdx).filterMap (readSymbols patternGrammar.longest · cs) :=
    List.mem_filterMap.2 ⟨production, by rwa [productionsOf_ctorIdx], hrow⟩
  rw [LeavesAtMost, reads, longest_eq patternGrammar_not_leftRecursive, readProductions]
  generalize (patternGrammar.productionsOf p.ctorIdx).filterMap _ = candidates at hcandidate ⊢
  cases hbest : candidates.argmin fun m => m.2.length with
  | none =>
    rw [List.argmin_eq_none.1 hbest] at hcandidate
    exact absurd hcandidate List.not_mem_nil
  | some best =>
    have hbest' := List.le_of_mem_argmin (f := fun m : List ParseTree × List Char => m.2.length)
      hcandidate hbest
    exact ⟨_, _, rfl, hbest'.trans hle⟩

/-- A part that may be left out takes some text, if only the empty one. -/
theorem leavesAtMost_optional (hmem : [epsilon] ∈ p.productions) (cs : List Char) :
    p.LeavesAtMost cs cs.length :=
  leavesAtMost_of_row hmem row_epsilon le_rfl

theorem multipliers_leavesAtMost (xs : List Quantifier) (rest : List Char) :
    multipliers.LeavesAtMost (Quantifier.textAll xs ++ rest) rest.length := by
  induction xs with
  | nil => exact leavesAtMost_optional (by decide) rest
  | cons x xs ih =>
    obtain ⟨tree, left, hread, hle⟩ := ih
    have hrow : row [multiplier.ref, multipliers.ref] (Quantifier.textAll (x :: xs) ++ rest) =
        some ([x.tree, tree], left) := by
      rw [Quantifier.textAll, List.flatMap_cons, List.append_assoc, ← Quantifier.textAll,
        row_ref (reads_multiplier x), row_ref hread, row_nil]
      rfl
    exact leavesAtMost_of_row (by decide) hrow hle

/-- A base with its quantifiers takes at least what was written for it. -/
theorem factor_leavesAtMost (b : Base) (xs : List Quantifier) (rest : List Char) :
    factor.LeavesAtMost (b.text ++ (Quantifier.textAll xs ++ rest)) rest.length := by
  obtain ⟨tree, left, hread, hle⟩ := multipliers_leavesAtMost xs rest
  refine ⟨factor.node [b.tree, tree], left, reads_of_single rfl ?_, hle⟩
  rw [row_ref (reads_base b _), row_ref hread, row_nil]
  rfl

theorem term_leavesAtMost (t : Term) (rest : List Char) :
    term.LeavesAtMost (t.text ++ rest) rest.length := by
  -- what the first factor leaves, the rest of the row takes up
  have hcons {cs mid : List Char} {tree : ParseTree} (hread : factor.reads cs = some (tree, mid))
      {n : Nat} (htail : term.LeavesAtMost mid n) : term.LeavesAtMost cs n := by
    obtain ⟨tail, left, htail, hle⟩ := htail
    have hrow : row [factor.ref, term.ref] cs = some ([tree, tail], left) := by
      rw [row_ref hread, row_ref htail, row_nil]
      rfl
    exact leavesAtMost_of_row (by decide) hrow hle
  match t with
  | .nil => exact leavesAtMost_optional (by decide) rest
  | .cons b xs .nil =>
    -- the quantifiers of the last factor may go on behind the row
    obtain ⟨tree, mid, hread, hle⟩ := factor_leavesAtMost b xs rest
    obtain ⟨tail, left, htail, hle'⟩ := leavesAtMost_optional (p := term) (by decide) mid
    rw [Term.text, Term.text, List.append_nil, List.append_assoc]
    exact hcons hread ⟨tail, left, htail, hle'.trans hle⟩
  | .cons b xs (.cons b' xs' t) =>
    have hstop : multiplier.reads ((Term.cons b' xs' t).text ++ rest) = none := by
      rw [Term.text, List.append_assoc]
      exact reads_multiplier_base b'
    rw [Term.text, List.append_assoc, List.append_assoc]
    exact hcons (reads_factor xs (reads_base b) hstop) (term_leavesAtMost (.cons b' xs' t) rest)

/-- A pattern is taken at least as far as it was written, whatever follows. -/
theorem regex_leavesAtMost (r : Regex) (rest : List Char) :
    regex.LeavesAtMost (r.text ++ rest) rest.length := by
  match r with
  | .term t =>
    obtain ⟨tree, left, hread, hle⟩ := term_leavesAtMost t rest
    have hrow : row [term.ref] (t.text ++ rest) = some ([tree], left) := by
      rw [row_ref hread, row_nil]
      rfl
    exact leavesAtMost_of_row (by decide) hrow hle
  | .bar t r =>
    obtain ⟨tree, left, hread, hle⟩ := regex_leavesAtMost r rest
    have hterm := reads_term t (.inr rfl : EndsAt ['|', ')'] ('|' :: (r.text ++ rest)))
    have halternatives : alternatives.reads (t.text ++ '|' :: (r.text ++ rest)) =
        some (alternatives.node [t.tree, .leaf (some '|'), tree], left) := by
      refine reads_of_single rfl ?_
      rw [row_ref hterm, row_lit, row_ref hread, row_nil]
      rfl
    have hrow : row [alternatives.ref] (t.text ++ '|' :: (r.text ++ rest)) =
        some ([alternatives.node [t.tree, .leaf (some '|'), tree]], left) := by
      rw [row_ref halternatives, row_nil]
      rfl
    rw [Regex.text, List.append_assoc, List.cons_append]
    exact leavesAtMost_of_row (by decide) hrow hle

end Part

/-- A failed parse stops at a character, with the longest match of a pattern behind it. -/
theorem exists_reads_of_parse_eq_error {pattern : String} {e : ParseError}
    (h : parse patternGrammar pattern = .error e) :
    ∃ tree, e.remainder ≠ "" ∧ pattern = e.consumed ++ e.remainder ∧
      Part.regex.reads pattern.toList = some (tree, e.remainder.toList) := by
  rw [parse_eq_outcomeOf patternGrammar_not_leftRecursive] at h
  obtain ⟨tree, rest, hread, -⟩ := Part.regex_leavesAtMost (.term .nil) pattern.toList
  have hlongest : patternGrammar.longest patternGrammar.start pattern.toList = some (tree, rest) :=
    hread
  obtain ⟨⟨front, hfront⟩, -⟩ := progressive_longest _ _ _ _ hlongest
  rw [hlongest] at h
  cases rest with
  | nil => cases h
  | cons c rest =>
    rw [← Except.error.inj h]
    refine ⟨tree, ?_, ?_, by rw [String.toList_ofList]; exact hread⟩
    · rw [Ne, ← String.toList_inj, String.toList_ofList]
      exact List.cons_ne_nil c rest
    · rw [← hfront, List.length_append, Nat.add_sub_cancel, List.take_left, ← String.ofList_append,
        hfront, String.ofList_toList]

/-- What a failed parse has consumed is the longest beginning of the text that is a pattern: it parses
by itself, some text remains, and no longer beginning of the text parses. -/
theorem consumed_longest_pattern {pattern : String} {e : ParseError}
    (h : parse patternGrammar pattern = .error e) :
    e.consumed ++ e.remainder = pattern ∧ e.remainder ≠ "" ∧
    (∃ tree, parse patternGrammar e.consumed = .ok tree) ∧
    ∀ longer : String, longer.toList <+: pattern.toList → e.consumed.length < longer.length →
      ∀ tree, parse patternGrammar longer ≠ .ok tree := by
  obtain ⟨tree, hne, hpattern, hread⟩ := exists_reads_of_parse_eq_error h
  have hsplit : pattern.toList = e.consumed.toList ++ e.remainder.toList := by
    rw [hpattern, String.toList_append]
  refine ⟨hpattern.symm, hne, ?_, fun longer hprefix hlonger tree' hparse => ?_⟩
  · have htakes : Part.regex.takes (Takes patternGrammar.longest) e.consumed.toList :=
      ⟨tree, e.remainder.toList, by rw [← hsplit]; exact hread⟩
    obtain ⟨r, hr⟩ := Part.exists_regex (unfolds_takes_longest patternGrammar_not_leftRecursive)
      (fun _ => Part.exists_list_of_longest) htakes
    exact ⟨r.tree, parse_eq_ok_iff_regex.2 ⟨r, hr, rfl⟩⟩
  · obtain ⟨r, hr, -⟩ := parse_eq_ok_iff_regex.1 hparse
    obtain ⟨tail, htail⟩ := hprefix
    obtain ⟨_, left, hreadr, hle⟩ := Part.regex_leavesAtMost r tail
    rw [← hr, htail, hread] at hreadr
    obtain ⟨-, rfl⟩ := Prod.mk.inj (Option.some.inj hreadr)
    have hlength := congrArg List.length (htail.trans hsplit)
    simp only [List.length_append, String.length_toList] at hlength hle
    omega

/-- The pattern `x(y|z)?`. -/
def optionalGroup : Regex :=
  .term (.cons (.atom (.plain 'x' (by decide))) []
    (.cons (.group (.bar (.cons (.atom (.plain 'y' (by decide))) [] .nil)
      (.term (.cons (.atom (.plain 'z' (by decide))) [] .nil)))) [.zeroOrOne] .nil))

/-- A parenthesis too many after a group: the pattern before it is what was consumed. -/
theorem strayParenthesis_consumed :
    parse patternGrammar "x(y|z)?)d" = .error ⟨"x(y|z)?", ")d"⟩ ∧
    "x(y|z)?" ++ ")d" = "x(y|z)?)d" ∧ ")d" ≠ "" ∧
    (∃ tree, parse patternGrammar "x(y|z)?" = .ok tree) ∧
    ∀ longer : String, longer.toList <+: "x(y|z)?)d".toList → "x(y|z)?".length < longer.length →
      ∀ tree, parse patternGrammar longer ≠ .ok tree := by
  have herror : parse patternGrammar "x(y|z)?)d" = .error ⟨"x(y|z)?", ")d"⟩ := by
    have hread : patternGrammar.longest patternGrammar.start "x(y|z)?)d".toList =
        some (optionalGroup.tree, [')', 'd']) :=
      Part.reads_regex optionalGroup (.inr rfl : EndsAt [')'] [')', 'd'])
    rw [parse_eq_outcomeOf patternGrammar_not_leftRecursive, hread]
    rfl
  exact ⟨herror, consumed_longest_pattern herror⟩

end PatternText
