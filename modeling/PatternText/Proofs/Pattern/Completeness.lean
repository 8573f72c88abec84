import PatternText.Proofs.Pattern.Inversion

/-! What parses. The texts that parse are those of patterns as syntax, each with the tree of its syntax.
Longest matches lose a sentence of the pattern language only where a list ends in a backslash: the
rules derive `[\]` as a list of a backslash, but the backslash takes the closing bracket. A text in
which no backslash stands before a closing bracket parses whenever it can be derived at all. -/

namespace PatternText

open Grammar ListChar

/-- No backslash is immediately followed by a closing bracket. -/
def Unescaped (cs : List Char) : Prop := ¬['\\', ']'] <:+: cs

theorem Unescaped.of_part {part cs : List Char} (h : Unescaped cs) (hpart : part <:+: cs) :
    Unescaped part :=
  fun hescape => h (hescape.trans hpart)

theorem clean_of_unescaped {ts : List ListChar} (h : Unescaped (textAll ts ++ [']'])) :
    Clean ts [']'] := by
  induction ts with
  | nil => exact .inr rfl
  | cons t ts ih =>
    rw [textAll_cons] at h
    refine ⟨fun ht hhead => ?_, ih (h.of_part (List.suffix_append _ _).isInfix)⟩
    subst ht
    obtain ⟨rest, hrest⟩ := List.head?_eq_some_iff.1 hhead
    apply h
    rw [hrest]
    exact (List.prefix_append ['\\', ']'] rest).isInfix

namespace Part

/-! ### Lists -/

theorem exists_list_of_derives {w : List Char}
    (h : inclusiveList.takes (fun id cs => patternGrammar.Derives id cs ∧ Unescaped cs) w ∨
      exclusiveList.takes (fun id cs => patternGrammar.Derives id cs ∧ Unescaped cs) w) :
    ∃ l : CharList, w = l.text := by
  have hR := (Derives.unfolds patternGrammar).and fun _ _ hpart hcs => Unescaped.of_part hcs hpart
  rcases h with h | h
  · obtain ⟨_, rfl, hu⟩ := splits_lit.1 (splits_of_single hR rfl h)
    obtain ⟨ts, hne, rfl⟩ := exists_list hR hu
    have hclean := clean_of_unescaped (h.2.of_part (List.suffix_cons _ _).isInfix)
    obtain ⟨l, hl⟩ := CharList.exists_of_clean hne hclean
    exact ⟨l, hl.symm⟩
  · obtain ⟨_, rfl, hu⟩ := splits_lit.1 (splits_of_single hR rfl h)
    obtain ⟨_, rfl, hu'⟩ := splits_lit.1 hu
    obtain ⟨ts, hne, rfl⟩ := exists_list hR hu'
    have hclean := clean_of_unescaped (h.2.of_part (List.suffix_append ['[', '^'] _).isInfix)
    obtain ⟨l, hl⟩ := CharList.exists_of_clean_negated hne hclean
    exact ⟨l, hl.symm⟩

theorem exists_list_of_longest {w : List Char}
    (h : inclusiveList.takes (Takes patternGrammar.longest) w ∨
      exclusiveList.takes (Takes patternGrammar.longest) w) : ∃ l : CharList, w = l.text := by
  rcases h with ⟨tree, rest, h⟩ | ⟨tree, rest, h⟩
  · obtain ⟨trees, hrow⟩ := exists_row_of_reads rfl h
    obtain ⟨cs, trees, hw, hrow⟩ := row_lit_eq_some hrow
    obtain ⟨ts, hne, hclean, rfl⟩ := exists_of_row_listSymbols hrow
    obtain ⟨l, hl⟩ := CharList.exists_of_clean hne (hclean.congr rfl)
    refine ⟨l, List.append_cancel_right (hw.trans ?_)⟩
    rw [hl, List.cons_append, List.append_assoc, List.singleton_append]
  · obtain ⟨trees, hrow⟩ := exists_row_of_reads rfl h
    obtain ⟨cs, trees, hw, hrow⟩ := row_lit_eq_some hrow
    obtain ⟨cs', trees', rfl, hrow'⟩ := row_lit_eq_some hrow
    obtain ⟨ts, hne, hclean, rfl⟩ := exists_of_row_listSymbols hrow'
    obtain ⟨l, hl⟩ := CharList.exists_of_clean_negated hne (hclean.congr rfl)
    refine ⟨l, List.append_cancel_right (hw.trans ?_)⟩
    rw [hl, List.cons_append, List.cons_append, List.append_assoc, List.singleton_append]

end Part

/-! ### Texts that parse -/

theorem parse_regex (r : Regex) : parse patternGrammar (String.ofList r.text) = .ok r.tree := by
  have hread := Part.reads_regex r (.inl rfl : EndsAt [')'] [])
  rw [List.append_nil] at hread
  rw [parse_eq_ok_iff patternGrammar_not_leftRecursive, String.toList_ofList]
  exact hread

/-- A text parses just when a pattern is written so, and its tree is that of the pattern. -/
theorem parse_eq_ok_iff_regex {text : String} {tree : ParseTree} :
    parse patternGrammar text = .ok tree ↔ ∃ r : Regex, text.toList = r.text ∧ tree = r.tree := by
  constructor
  · intro h
    have hread := (parse_eq_ok_iff patternGrammar_not_leftRecursive).1 h
    have htakes : Part.regex.takes (Takes patternGrammar.longest) text.toList :=
      ⟨tree, [], by rw [List.append_nil]; exact hread⟩
    obtain ⟨r, hr⟩ := Part.exists_regex (unfolds_takes_longest patternGrammar_not_leftRecursive)
      (fun _ => Part.exists_list_of_longest) htakes
    refine ⟨r, hr, ?_⟩
    have hregex := parse_regex r
    rw [← hr, String.ofList_toList, h] at hregex
    exact Except.ok.inj hregex
  · rintro ⟨r, hr, rfl⟩
    rw [← String.ofList_toList (s := text), hr]
    exact parse_regex r

/-- What parses can be derived. -/
theorem derives_of_parse {text : String} {tree : ParseTree}
    (h : parse patternGrammar text = .ok tree) :
    patternGrammar.Derives patternGrammar.start text.toList := by
  have hread := (parse_eq_ok_iff patternGrammar_not_leftRecursive).1 h
  rw [← List.append_nil text.toList] at hread
  exact derives_of_longest hread

/-- Every sentence of the pattern language in which no backslash stands before a closing bracket
parses, as a whole. -/
theorem parse_of_derives (text : String)
    (hderives : patternGrammar.Derives patternGrammar.start text.toList)
    (hescape : ¬['\\', ']'] <:+: text.toList) :
    ∃ tree, parse patternGrammar text = .ok tree ∧ tree.text = text := by
  have hR := (Derives.unfolds patternGrammar).and fun _ _ hpart hcs => Unescaped.of_part hcs hpart
  have htakes : Part.regex.takes (fun id cs => patternGrammar.Derives id cs ∧ Unescaped cs)
      text.toList := ⟨hderives, hescape⟩
  obtain ⟨r, hr⟩ := Part.exists_regex hR (fun _ => Part.exists_list_of_derives) htakes
  have hparse := parse_eq_ok_iff_regex.2 ⟨r, hr, rfl⟩
  exact ⟨r.tree, hparse, text_of_parse patternGrammar_not_leftRecursive hparse⟩

/-- The row of a repeated letter or a list of one. -/
def starOrList : Regex :=
  .bar (.cons (.atom (.plain 'a' (by decide))) [.zeroOrMore] .nil)
    (.term (.cons (.atom (.list ⟨false, [.plain 'b' (by decide)], by decide, ⟨nofun, .inr rfl⟩,
      fun _ _ h => (List.cons.inj h).2.symm⟩)) [] .nil))

theorem starOrList_parses :
    patternGrammar.Derives patternGrammar.start "a*|[b]".toList ∧
      (¬['\\', ']'] <:+: "a*|[b]".toList) ∧
      ∃ tree, parse patternGrammar "a*|[b]" = .ok tree ∧ tree.text = "a*|[b]" := by
  have hderives : patternGrammar.Derives patternGrammar.start "a*|[b]".toList :=
    derives_of_parse (parse_eq_ok_iff_regex.2 ⟨starOrList, by decide +kernel, rfl⟩)
  have hescape : ¬['\\', ']'] <:+: "a*|[b]".toList := by decide +kernel
  exact ⟨hderives, hescape, parse_of_derives _ hderives hescape⟩

end PatternText
