import PatternText.Proofs.Grammar.Table

/-! What trees spell. The text of a node is that of its children one after the other, so a match spells
exactly what it takes, and the tree of a text that parses spells the whole text. -/

namespace PatternText

namespace ParseTree

mutual

/-- The characters at the leaves, from left to right. -/
def chars : ParseTree → List Char
  | leaf c => c.toList
  | node _ children => charsAll children

/-- The characters of a forest. -/
def charsAll : List ParseTree → List Char
  | [] => []
  | t :: ts => chars t ++ charsAll ts

end

theorem charsAll_append (ts us : List ParseTree) :
    charsAll (ts ++ us) = charsAll ts ++ charsAll us := by
  induction ts with
  | nil => rfl
  | cons t ts ih => rw [List.cons_append, charsAll, charsAll, ih, List.append_assoc]

theorem toList_spell (acc : String) (ts : List ParseTree) :
    (spell acc ts).toList = acc.toList ++ charsAll ts := by
  fun_induction spell acc ts with
  | case1 acc => rw [charsAll, List.append_nil]
  | case2 acc c ts ih =>
    rw [ih, charsAll, chars]
    cases c with
    | none => rfl
    | some c =>
      rw [Option.elim_some, String.toList_push, List.append_assoc]
      rfl
  | case3 acc name children ts ih => rw [ih, charsAll_append, charsAll, chars]

theorem text_eq (t : ParseTree) : t.text = String.ofList t.chars := by
  rw [← String.toList_inj, String.toList_ofList, text, toList_spell, charsAll, charsAll,
    List.append_nil]
  rfl

end ParseTree

namespace Grammar

/-- Whatever the reader finds spells the text up to what remains. -/
def Spells (f : Reader) : Prop :=
  ∀ id cs tree rest, f id cs = some (tree, rest) → cs = tree.chars ++ rest

theorem readTerminal_spells {terminal : Terminal} {cs rest : List Char} {tree : ParseTree}
    (h : readTerminal terminal cs = some (tree, rest)) : cs = tree.chars ++ rest := by
  cases terminal with
  | epsilon =>
    simp only [readTerminal, Option.some.injEq, Prod.mk.injEq] at h
    obtain ⟨rfl, rfl⟩ := h
    rfl
  | oneOf _ | noneOf _ =>
    cases cs with
    | nil => simp [readTerminal] at h
    | cons c cs =>
      simp only [readTerminal, Option.ite_none_right_eq_some, Option.some.injEq,
        Prod.mk.injEq] at h
      obtain ⟨-, rfl, rfl⟩ := h
      rfl

theorem readSymbol_spells {f : Reader} (hf : Spells f) {symbol : Symbol} {cs rest : List Char}
    {tree : ParseTree} (h : readSymbol f symbol cs = some (tree, rest)) : cs = tree.chars ++ rest := by
  cases symbol with
  | terminal terminal => exact readTerminal_spells h
  | nonTerminal id => exact hf id cs tree rest h

theorem readSymbols_spells {f : Reader} (hf : Spells f) {symbols : List Symbol}
    {cs rest : List Char} {trees : List ParseTree}
    (h : readSymbols f symbols cs = some (trees, rest)) :
    cs = ParseTree.charsAll trees ++ rest := by
  induction symbols generalizing cs trees with
  | nil =>
    simp only [readSymbols, Option.some.injEq, Prod.mk.injEq] at h
    obtain ⟨rfl, rfl⟩ := h
    rfl
  | cons symbol symbols ih =>
    obtain ⟨tree, mid, trees', hsymbol, hsymbols, htrees⟩ := readSymbols_cons.1 h
    obtain rfl : trees = tree :: trees' := htrees
    rw [readSymbol_spells hf hsymbol, ih hsymbols, ParseTree.charsAll, List.append_assoc]

theorem spells_readTo (g : Grammar) (depth : Nat) : Spells (g.readTo depth) := by
  intro id cs tree rest h
  induction depth generalizing id cs tree rest with
  | zero => simp [readTo] at h
  | succ depth ih =>
    obtain ⟨production, -, trees, hread, htree⟩ := readProductions_eq_some h
    obtain rfl : tree = .node (g.nameOf id) trees := htree
    rw [ParseTree.chars]
    exact readSymbols_spells ih hread

theorem spells_longest (g : Grammar) : Spells g.longest :=
  fun id cs => spells_readTo g _ id cs

end Grammar

/-- A text parses just when the longest match of the start symbol takes all of it. -/
theorem parse_eq_ok_iff {g : Grammar} (hg : ¬g.LeftRecursive) {text : String} {tree : ParseTree} :
    parse g text = .ok tree ↔ g.longest g.start text.toList = some (tree, []) := by
  rw [parse_eq_outcomeOf hg]
  cases g.longest g.start text.toList with
  | none => simp [outcomeOf]
  | some m =>
    obtain ⟨tree', rest⟩ := m
    cases rest <;> simp [outcomeOf]

/-- The tree of a text spells it. -/
theorem text_of_parse {g : Grammar} (hg : ¬g.LeftRecursive) {text : String} {tree : ParseTree}
    (h : parse g text = .ok tree) : tree.text = text := by
  have hspell := Grammar.spells_longest g _ _ _ _ ((parse_eq_ok_iff hg).1 h)
  rw [List.append_nil] at hspell
  rw [ParseTree.text_eq, ← hspell, String.ofList_toList]

end PatternText
