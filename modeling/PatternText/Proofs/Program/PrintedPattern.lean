import PatternText.Program.Compile
import PatternText.Proofs.Grammar.PrintedTree
import PatternText.Proofs.Pattern.Nodes

/-! Printed trees of patterns. All names in the tree of a pattern are titles of parts, which have only
capital letters and underscores, so the printed tree tells the form of the tree and the pattern. -/

namespace PatternText

namespace ParseTree

mutual

theorem liesIn_of_mem_preorder {p : Nat × ParseTree} (depth : Nat) (t : ParseTree)
    (h : p ∈ t.preorder depth) : p.2.LiesIn t := by
  cases t with
  | leaf c =>
    rw [List.mem_singleton.1 h]
    exact liesIn_self _
  | node name children =>
    rcases List.mem_cons.1 h with rfl | h
    · exact liesIn_self _
    · exact liesIn_node.2 (.inr (exists_liesIn_of_mem_preorderAll (depth + 1) children h))

theorem exists_liesIn_of_mem_preorderAll {p : Nat × ParseTree} (depth : Nat) (ts : List ParseTree)
    (h : p ∈ preorderAll depth ts) : ∃ t ∈ ts, p.2.LiesIn t := by
  cases ts with
  | nil => cases h
  | cons t ts =>
    rcases List.mem_append.1 h with h | h
    · exact ⟨t, List.mem_cons_self, liesIn_of_mem_preorder depth t h⟩
    · obtain ⟨u, hu, hin⟩ := exists_liesIn_of_mem_preorderAll depth ts h
      exact ⟨u, List.mem_cons_of_mem t hu, hin⟩

end

end ParseTree

open ParseTree

theorem Part.isTitle_title (p : Part) : isTitle p.title = true := by
  cases p <;> decide +kernel

/-- The nodes of a match bear titles. -/
theorem Part.titled_of_liesIn {p : Part} {cs rest : List Char} {tree u : ParseTree}
    (h : p.reads cs = some (tree, rest)) (hu : u.LiesIn tree) : u.Titled := by
  intro name hname
  rcases exists_reads_of_liesIn closed_parts p.mem_parts h hu with ⟨c, rfl⟩ | ⟨q, -, _, _, hread⟩
  · cases hname
  · obtain ⟨-, -, trees, rfl, -⟩ := exists_row_of_match hread
    obtain rfl := Option.some.inj hname
    exact q.isTitle_title

theorem parse_of_patternTree {pattern : String} {tree : ParseTree}
    (h : patternTree pattern = .ok tree) : parse patternGrammar pattern = .ok tree := by
  rw [patternTree] at h
  split at h
  · cases h
  · split at h
    next htree =>
      obtain rfl := Except.ok.inj h
      exact htree
    next => cases h

theorem titled_of_patternTree {pattern : String} {tree : ParseTree}
    (h : patternTree pattern = .ok tree) : ∀ p ∈ tree.preorder 0, p.2.Titled := by
  intro p hp
  have hread : Part.regex.reads pattern.toList = some (tree, []) :=
    (parse_eq_ok_iff patternGrammar_not_leftRecursive).1 (parse_of_patternTree h)
  exact Part.titled_of_liesIn hread (liesIn_of_mem_preorder 0 tree hp)

theorem quotedText?_of_patternTree {pattern : String} {tree : ParseTree}
    (h : patternTree pattern = .ok tree) : quotedText? tree.toText = some pattern := by
  rw [quotedText?_toText (titled_of_patternTree h),
    text_of_parse patternGrammar_not_leftRecursive (parse_of_patternTree h)]

/-- The printed tree of a pattern tells the pattern: its quoted lines, with the quoting undone, are the
pattern one after the other, and its indentation tells the form of the tree. No two patterns have the
same printed tree. -/
theorem printed_tells_pattern {pattern : String} {tree : ParseTree}
    (h : patternTree pattern = .ok tree) :
    quotedText? tree.toText = some pattern ∧ shapeOf? tree.toText = some tree.shape ∧
      ∀ (other : String) (otherTree : ParseTree), patternTree other = .ok otherTree →
        otherTree.toText = tree.toText → other = pattern ∧ otherTree = tree := by
  have hquoted := quotedText?_of_patternTree h
  refine ⟨hquoted, shapeOf?_toText (titled_of_patternTree h), fun other otherTree hother hsame => ?_⟩
  have hpattern : other = pattern := by
    have hquoted' := quotedText?_of_patternTree hother
    rw [hsame, hquoted] at hquoted'
    exact (Option.some.inj hquoted').symm
  rw [hpattern, h] at hother
  exact ⟨hpattern, (Except.ok.inj hother).symm⟩

/-- A group of a quotation mark and a line feed, or of a backslash and a bell, any number of times. -/
def oddChars : Regex :=
  .term (.cons (.group (.bar
      (.cons (.atom (.plain '"' (by decide))) [] (.cons (.atom (.plain '\n' (by decide))) [] .nil))
      (.term (.cons (.atom (.escaped '\\' (by decide))) []
        (.cons (.atom (.plain '\x07' (by decide))) [] .nil)))))
    [.zeroOrMore] .nil)

theorem oddChars_told :
    patternTree "(\"\n|\\\\\x07)*" = .ok oddChars.tree ∧
      quotedText? oddChars.tree.toText = some "(\"\n|\\\\\x07)*" ∧
      shapeOf? oddChars.tree.toText = some oddChars.tree.shape ∧
      ∀ (other : String) (otherTree : ParseTree), patternTree other = .ok otherTree →
        otherTree.toText = oddChars.tree.toText →
        other = "(\"\n|\\\\\x07)*" ∧ otherTree = oddChars.tree := by
  have htree : patternTree "(\"\n|\\\\\x07)*" = .ok oddChars.tree := by
    rw [patternTree, if_neg (by decide), parse_eq_ok_iff_regex.2 ⟨oddChars, by decide +kernel, rfl⟩]
  exact ⟨htree, printed_tells_pattern htree⟩

end PatternText
