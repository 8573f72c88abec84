import PatternText.Proofs.Grammar.Greedy
import PatternText.Proofs.Pattern.Completeness

/-! The nodes in the tree of a pattern. The name of a node tells its part, and below the match of a part
there are only matches of the parts that can be reached from it. Which node it is decides what is below
it: a character is never matched as a digit, since a digit is a character without a special meaning as
well and that choice is declared first, and the node of a modifier is that of a modifier as syntax. -/

namespace PatternText

namespace ParseTree

/-- The tree `u` is somewhere in the tree `t`. -/
def LiesIn (u t : ParseTree) : Prop := ∃ place cs, Occurs u place t cs

variable {u : ParseTree} {name : String}

theorem liesIn_self (t : ParseTree) : t.LiesIn t := ⟨[], [], .here⟩

theorem liesIn_node {ts : List ParseTree} :
    u.LiesIn (.node name ts) ↔ u = .node name ts ∨ ∃ t ∈ ts, u.LiesIn t := by
  constructor
  · rintro ⟨place, cs, h⟩
    cases h with
    | here => exact .inl rfl
    | child inner => exact .inr ⟨_, List.mem_append_right _ List.mem_cons_self, place, _, inner⟩
  · rintro (rfl | ⟨t, ht, place, cs, h⟩)
    · exact liesIn_self _
    · obtain ⟨before, after, rfl⟩ := List.append_of_mem ht
      refine ⟨place, charsAll before ++ cs, .child ?_⟩
      rwa [List.drop_left]

theorem eq_of_liesIn_leaf {c : Option Char} (h : u.LiesIn (.leaf c)) : u = .leaf c := by
  obtain ⟨place, cs, h⟩ := h
  cases h
  rfl

/-- What is collected from a forest bears the name and lies in one of its trees. -/
theorem liesIn_of_mem_collectNamed {found : Array ParseTree} {ts : List ParseTree}
    (h : u ∈ (collectNamed name found ts).toList) :
    u ∈ found.toList ∨ u.bears name = true ∧ ∃ t ∈ ts, u.LiesIn t := by
  fun_induction collectNamed name found ts with
  | case1 found => exact .inl h
  | case2 found t ts hbears ih =>
    rcases ih h with hfound | ⟨hname, v, hv, hin⟩
    · rw [Array.toList_push, List.mem_append, List.mem_singleton] at hfound
      rcases hfound with hfound | rfl
      · exact .inl hfound
      · exact .inr ⟨hbears, u, List.mem_cons_self, liesIn_self u⟩
    · exact .inr ⟨hname, v, List.mem_cons_of_mem _ hv, hin⟩
  | case3 found t ts hother ih =>
    rcases ih h with hfound | ⟨hname, v, hv, hin⟩
    · exact .inl hfound
    · refine .inr ⟨hname, ?_⟩
      rcases List.mem_append.1 hv with hv | hv
      · cases t with
        | leaf c => cases hv
        | node name' children =>
          exact ⟨_, List.mem_cons_self, liesIn_node.2 (.inr ⟨v, hv, hin⟩)⟩
      · exact ⟨v, List.mem_cons_of_mem _ hv, hin⟩

theorem liesIn_of_mem_findAll {t : ParseTree} (h : u ∈ t.findAll name) :
    u.bears name = true ∧ u.LiesIn t := by
  rcases liesIn_of_mem_collectNamed h with hfound | ⟨hname, v, hv, hin⟩
  · cases hfound
  · rw [List.mem_singleton.1 hv] at hin
    exact ⟨hname, hin⟩

/-- No node of the forest bears the name. -/
def Lacks (name : String) (ts : List ParseTree) : Prop :=
  ∀ t ∈ ts, ∀ u : ParseTree, u.LiesIn t → u.bears name = false

theorem Lacks.below {t : ParseTree} {ts : List ParseTree} (h : Lacks name (t :: ts)) :
    Lacks name (t.children ++ ts) := by
  obtain ⟨ht, hts⟩ := List.forall_mem_cons.1 h
  intro v hv
  rcases List.mem_append.1 hv with hv | hv
  · cases t with
    | leaf c => cases hv
    | node name' children => exact fun u hu => ht u (liesIn_node.2 (.inr ⟨v, hv, hu⟩))
  · exact hts v hv

end ParseTree

namespace Part

open Grammar ParseTree PatternText.Symbol

variable {p q : Part} {cs rest : List Char} {tree u : ParseTree}

/-! ### Names -/

theorem ctorIdx_lt_size (p : Part) : p.ctorIdx < patternGrammar.size := by
  obtain ⟨hlt, -⟩ := Array.getElem?_eq_some_iff.1 p.getElem?_ctorIdx
  exact hlt

theorem title_injective : Function.Injective title := by
  intro p q htitle
  have hnumber (r : Part) : patternGrammar.lookup r.title = some r.ctorIdx := by
    rw [← nameOf_ctorIdx]
    exact lookup_nameOf patternRules r.ctorIdx_lt_size
  have hsame : some p.ctorIdx = some q.ctorIdx := by
    rw [← hnumber p, ← hnumber q, htitle]
  calc
    p = Part.ofNat p.ctorIdx := p.ofNat_ctorIdx.symm
    _ = Part.ofNat q.ctorIdx := by rw [Option.some.inj hsame]
    _ = q := q.ofNat_ctorIdx

/-- A node bears the title of its own part and no other one. -/
theorem bears_node (p q : Part) (ts : List ParseTree) :
    (p.node ts).bears q.title = decide (p = q) := by
  by_cases h : p = q
  · rw [decide_eq_true h, h]
    exact beq_self_eq_true _
  · rw [decide_eq_false h]
    exact beq_eq_false_iff_ne.2 fun htitle => h (title_injective (Option.some.inj htitle))

/-! ### Matches below matches -/

theorem exists_row_of_match (h : p.reads cs = some (tree, rest)) :
    ∃ production ∈ p.productions, ∃ trees,
      tree = p.node trees ∧ row production cs = some (trees, rest) := by
  rw [reads, longest_eq patternGrammar_not_leftRecursive] at h
  obtain ⟨production, hmem, trees, hread, htree⟩ := readProductions_eq_some h
  rw [productionsOf_ctorIdx] at hmem
  rw [nameOf_ctorIdx] at htree
  exact ⟨production, hmem, trees, htree, hread⟩

/-- Only the part itself has a match that bears its title. -/
theorem eq_of_bears (h : p.reads cs = some (tree, rest)) (hbears : tree.bears q.title = true) :
    p = q := by
  obtain ⟨-, -, trees, rfl, -⟩ := exists_row_of_match h
  rw [bears_node] at hbears
  exact of_decide_eq_true hbears

/-- Whether the non-terminals in the productions of these parts are among the parts themselves. -/
def closed (ps : List Part) : Bool :=
  ps.all fun p => p.productions.all fun production => production.all fun symbol =>
    match symbol with
    | .terminal _ => true
    | .nonTerminal id => (ps.map Part.ctorIdx).contains id

/-- What lies in a match is a leaf or a match of a part that the productions lead to. -/
theorem exists_reads_of_liesIn {ps : List Part} (hclosed : closed ps = true) (hp : p ∈ ps)
    (h : p.reads cs = some (tree, rest)) (hu : u.LiesIn tree) :
    (∃ c, u = .leaf c) ∨ ∃ q ∈ ps, ∃ cs' rest', q.reads cs' = some (u, rest') := by
  obtain ⟨place, start, hoccurs⟩ := hu
  induction hoccurs generalizing p cs rest with
  | here => exact .inr ⟨p, hp, cs, rest, h⟩
  | child inner ih =>
    obtain ⟨production, hproduction, trees, hnode, hrow⟩ := exists_row_of_match h
    obtain ⟨-, rfl⟩ := node.inj hnode
    obtain ⟨symbol, hsymbol, rest', hread⟩ :=
      exists_readSymbol_of_readSymbols (spells_longest patternGrammar) hrow
    have hallowed := List.all_eq_true.1
      (List.all_eq_true.1 (List.all_eq_true.1 hclosed p hp) production hproduction) symbol hsymbol
    cases symbol with
    | terminal terminal =>
      obtain ⟨c, rfl⟩ := exists_leaf_of_readTerminal hread
      exact .inl ⟨c, eq_of_liesIn_leaf ⟨_, _, inner⟩⟩
    | nonTerminal id =>
      obtain ⟨q, hq, rfl⟩ := List.mem_map.1 (List.contains_iff_mem.1 hallowed)
      exact ih hq hread

/-- No node of a part that the productions do not lead to lies in a match. -/
theorem bears_eq_false_of_liesIn {ps : List Part} (hclosed : closed ps = true) (hp : p ∈ ps)
    (hq : q ∉ ps) (h : p.reads cs = some (tree, rest)) (hu : u.LiesIn tree) :
    u.bears q.title = false := by
  rcases exists_reads_of_liesIn hclosed hp h hu with ⟨c, rfl⟩ | ⟨r, hr, cs', rest', hread⟩
  · rfl
  · rw [Bool.eq_false_iff]
    intro hbears
    obtain rfl := eq_of_bears hread hbears
    exact hq hr

theorem lacks_of_reads {ps : List Part} (hclosed : closed ps = true) (hp : p ∈ ps) (hq : q ∉ ps)
    (h : p.reads cs = some (tree, rest)) : Lacks q.title [tree] := by
  intro t ht u hu
  rw [List.mem_singleton.1 ht] at hu
  exact bears_eq_false_of_liesIn hclosed hp hq h hu

/-- All parts, by number. -/
def parts : List Part := (List.range 49).map Part.ofNat

theorem mem_parts (p : Part) : p ∈ parts := by
  cases p <;> decide

theorem closed_parts : closed parts = true := by
  decide +kernel

/-- A node with the title of a part that lies in a match is a match of the part. -/
theorem exists_reads_of_bears (h : p.reads cs = some (tree, rest)) (hu : u.LiesIn tree)
    (hbears : u.bears q.title = true) : ∃ cs' rest', q.reads cs' = some (u, rest') := by
  rcases exists_reads_of_liesIn closed_parts p.mem_parts h hu with ⟨c, rfl⟩ | ⟨r, -, hread⟩
  · cases hbears
  · obtain ⟨cs', rest', hread⟩ := hread
    obtain rfl := eq_of_bears hread hbears
    exact ⟨cs', rest', hread⟩

theorem takes_of_reads (h : p.reads cs = some (tree, rest)) :
    p.takes (Takes patternGrammar.longest) tree.chars ∧ cs = tree.chars ++ rest := by
  have hspell := spells_longest patternGrammar _ _ _ _ h
  rw [hspell] at h
  exact ⟨⟨tree, rest, h⟩, hspell⟩

/-! ### Characters and modifiers -/

/-- A part with single parts for its productions has a match of one of them below its node. -/
theorem exists_reads_of_choice (ps : List Part) (hp : p.productions = ps.map fun q => [q.ref])
    (h : p.reads cs = some (tree, rest)) :
    ∃ q ∈ ps, ∃ t, tree = p.node [t] ∧ q.reads cs = some (t, rest) := by
  obtain ⟨production, hproduction, trees, rfl, hrow⟩ := exists_row_of_match h
  rw [hp] at hproduction
  obtain ⟨q, hq, rfl⟩ := List.mem_map.1 hproduction
  obtain ⟨t, mid, trees', hread, hnil, rfl⟩ := readSymbols_cons.1 hrow
  obtain ⟨rfl, rfl⟩ := Prod.mk.inj (Option.some.inj hnil)
  exact ⟨q, hq, t, rfl, hread⟩

/-- A character is not matched as a digit. -/
theorem not_digit_of_reads_char {trees : List ParseTree}
    (h : char.reads cs = some (char.node trees, rest)) : ∀ t ∈ trees, t.bears "DIGIT" = false := by
  intro t ht
  rw [Bool.eq_false_iff]
  intro hbears
  obtain ⟨q, -, t', hnode, hread⟩ := exists_reads_of_choice
    [nonMetaChar, escMetaChar, digit, whitespace, nonWhitespace, digitAlias, nonDigitAlias,
      wordChar, nonWordChar, exclusiveList, inclusiveList] rfl h
  obtain ⟨-, rfl⟩ := node.inj hnode
  obtain rfl := List.mem_singleton.1 ht
  obtain rfl : q = digit := eq_of_bears hread hbears
  -- the same digit is matched as a character without a special meaning
  obtain ⟨htakes, hcs⟩ := takes_of_reads hread
  obtain ⟨c, hc, hchars⟩ :=
    exists_digit (unfolds_takes_longest patternGrammar_not_leftRecursive) htakes
  have hother : ∀ c ∈ digitChars, c ∉ metaChars := by simp [digitChars, metaChars]
  rw [hcs, hchars, List.singleton_append, reads_char_plain (hother c hc)] at h
  obtain ⟨-, hsame⟩ := node.inj (Prod.mk.inj (Option.some.inj h)).1
  obtain rfl := List.singleton_inj.1 hsame
  have hplain : digit = nonMetaChar := eq_of_bears hread (beq_self_eq_true _)
  cases hplain

/-- The node of a modifier is that of a modifier as syntax. -/
theorem exists_modifier_of_reads (h : exprMod.reads cs = some (tree, rest)) :
    ∃ m : NumberModifier, tree = m.tree := by
  obtain ⟨htakes, hcs⟩ := takes_of_reads h
  obtain ⟨m, hm⟩ :=
    exists_numberModifier (unfolds_takes_longest patternGrammar_not_leftRecursive) htakes
  rw [hcs, hm, reads_exprMod] at h
  exact ⟨m, (Prod.mk.inj (Option.some.inj h)).1.symm⟩

end Part

end PatternText
