import PatternText.Proofs.FirstOccurrences
import PatternText.Proofs.Grammar.Nesting
import PatternText.Proofs.Grammar.Spelling
import PatternText.Proofs.Guarded.Parsing

/-! What every node of a parse tree is. At its place in the text a node holds the matches of the
symbols of one production of its non-terminal, in order. Of all productions that match there it is one
that takes the most, and the first declared among those. The part of the text that is cut out for it
between two bytes is what its children spell. The name of a node tells its non-terminal, as no two
non-terminals that rules describe have the same name. -/

namespace PatternText

open String (utf8Len)

namespace ParseTree

/-- The tree `u` lies in the tree `t`, at the place where `place` remains of the text if `t` stands
where `cs` does. -/
inductive Occurs (u : ParseTree) (place : List Char) : ParseTree → List Char → Prop where
  | here : Occurs u place u place
  | child {name : String} {before after : List ParseTree} {t : ParseTree} {cs : List Char}
      (inner : Occurs u place t (cs.drop (charsAll before).length)) :
      Occurs u place (.node name (before ++ t :: after)) cs

theorem Occurs.suffix {u t : ParseTree} {place cs : List Char} (h : Occurs u place t cs) :
    place <:+ cs := by
  induction h with
  | here => exact List.suffix_rfl
  | child _ ih => exact ih.trans (List.drop_suffix _ _)

theorem text_node (name : String) (children : List ParseTree) :
    (node name children).text = String.join (children.map text) := by
  rw [← String.toList_inj, text_eq, String.toList_ofList, chars, String.toList_join, List.flatMap_map]
  induction children with
  | nil => rfl
  | cons t ts ih => rw [charsAll, ih, List.flatMap_cons, text_eq, String.toList_ofList]

end ParseTree

namespace ParseTable

/-- What a row of symbols matches where `k` characters remain, each symbol by its own match in the
finished table, and how many characters remain after it. -/
def tryRow (t : ParseTable) (symbols : List Symbol) (k : Nat) : Option (List ParseTree × Nat) :=
  (t.matchSymbols (fun id memo => (t.lookup t.chars.size id, memo)) symbols k [] #[]).1

variable {g : Grammar} {t : ParseTable} {cs : List Char}

theorem Holds.matchSymbols_lookup (h : Holds g t cs (cs.length + 1)) (symbols : List Symbol)
    {rest : List Char} (hrest : rest <:+ cs) (done : List ParseTree) (memo : Memo) :
    (t.matchSymbols (fun id memo => (t.lookup t.chars.size id, memo)) symbols rest.length done
        memo).1 =
      (Grammar.readSymbols g.longest symbols rest).map
        fun m => (done.reverse ++ m.1, m.2.length) := by
  induction symbols generalizing rest done with
  | nil =>
    rw [matchSymbols, Grammar.readSymbols, Option.map_some, List.append_nil]
  | cons symbol symbols ih =>
    have hnext (tree : ParseTree) (after : List Char)
        (hread : Grammar.readSymbol g.longest symbol rest = some (tree, after)) :
        (t.matchSymbols (fun id memo => (t.lookup t.chars.size id, memo)) symbols after.length
            (tree :: done) memo).1 =
          (Grammar.readSymbols g.longest (symbol :: symbols) rest).map
            fun m => (done.reverse ++ m.1, m.2.length) := by
      obtain ⟨hafter, -⟩ := Grammar.readSymbol_progress Grammar.progressive_longest hread
      rw [ih (hafter.trans hrest), Grammar.readSymbols, hread]
      simp [Function.comp_def]
    cases symbol with
    | terminal terminal =>
      rw [matchSymbols, h.matchTerminal_eq terminal hrest]
      cases hread : Grammar.readTerminal terminal rest with
      | none =>
        rw [Grammar.readSymbols, Grammar.readSymbol, hread]
        rfl
      | some m => exact hnext m.1 m.2 hread
    | nonTerminal id =>
      have hfound : (if rest.length = t.chars.size then (t.lookup t.chars.size id, memo)
          else (t.lookup rest.length id, memo)) = ((g.longest id rest).map Reading.toMatch, memo) := by
        rw [← h.lookup_eq rest hrest (Nat.lt_succ_of_le hrest.length_le) id]
        split
        next heq => rw [heq]
        next => rfl
      rw [matchSymbols, hfound]
      cases hread : g.longest id rest with
      | none =>
        rw [Grammar.readSymbols, Grammar.readSymbol, hread]
        rfl
      | some m => exact hnext m.1 m.2 hread

/-- On the finished table a row is tried with the longest match of each of its symbols. -/
theorem Holds.tryRow_eq (h : Holds g t cs (cs.length + 1)) (symbols : List Symbol)
    {rest : List Char} (hrest : rest <:+ cs) :
    t.tryRow symbols rest.length =
      (Grammar.readSymbols g.longest symbols rest).map fun m => (m.1, m.2.length) :=
  h.matchSymbols_lookup symbols hrest [] #[]

end ParseTable

namespace Grammar

variable {g : Grammar}

/-! ### Names -/

theorem names_ofRules (rules : List (String × String)) :
    (ofRules rules).nonTerminals.toList.map NonTerminal.name = (rules.map Prod.fst).eraseDups := by
  simp [ofRules, Function.comp_def]

/-- The name of a non-terminal tells its number. -/
theorem lookup_nameOf (rules : List (String × String)) {id : Nat} (hid : id < (ofRules rules).size) :
    (ofRules rules).lookup ((ofRules rules).nameOf id) = some id := by
  have hnodup : ((ofRules rules).nonTerminals.toList.map NonTerminal.name).Nodup := by
    rw [names_ofRules]
    exact nodup_eraseDups _
  generalize ofRules rules = g at *
  rw [size] at hid
  have hname : g.nameOf id = g.nonTerminals[id].name := by
    rw [nameOf, Array.getElem?_eq_getElem hid]
    rfl
  rw [lookup, hname, Array.findIdx?_eq_some_iff_getElem]
  refine ⟨hid, beq_self_eq_true _, fun j hj heq => ?_⟩
  have hlength : (g.nonTerminals.toList.map NonTerminal.name).length = g.nonTerminals.size := by simp
  have hsame : (g.nonTerminals.toList.map NonTerminal.name).get ⟨j, hlength ▸ hj.trans hid⟩ =
      (g.nonTerminals.toList.map NonTerminal.name).get ⟨id, hlength ▸ hid⟩ := by
    simpa using heq
  exact hj.ne (Fin.mk.inj (List.nodup_iff_injective_get.1 hnodup hsame))

/-! ### Nodes -/

/-- The tree is of the kind that the symbol asks for: a character that its terminal accepts, nothing
for the match of nothing, or a node with the name of its non-terminal. -/
def Fits (g : Grammar) : Symbol → ParseTree → Prop
  | .terminal .epsilon, t => t = .leaf none
  | .terminal terminal, t => ∃ c, terminal.accepts c = true ∧ t = .leaf (some c)
  | .nonTerminal id, t => ∃ name, g.lookup name = some id ∧ t.name? = some name

/-- What a node of this name with these children is where `cs` remains of the text: the match of a
production of its non-terminal, in which each child is of the kind that its symbol asks for. No
production takes more there, and those declared before it take less. -/
def IsChoice (g : Grammar) (table : ParseTable) (name : String) (children : List ParseTree)
    (cs : List Char) : Prop :=
  ∃ id before production after rest, g.lookup name = some id ∧
    g.productionsOf id = before ++ production :: after ∧ List.Forall₂ g.Fits production children ∧
    cs = ParseTree.charsAll children ++ rest ∧
    table.tryRow production cs.length = some (children, rest.length) ∧
    (∀ other ∈ before, ∀ m, table.tryRow other cs.length = some m → rest.length < m.2) ∧
    ∀ other ∈ after, ∀ m, table.tryRow other cs.length = some m → rest.length ≤ m.2

/-- What parsing by byte offsets stores for a node of this name with these children where `place`
remains of the text: the non-terminal matches there as that node, with the part of the text from there
on that its children spell. -/
def IsStored (g : Grammar) (text : List Char) (name : String) (children : List ParseTree)
    (place : List Char) : Prop :=
  ∃ id before taken rest memo, g.lookup name = some id ∧ text = before ++ place ∧
    place = taken ++ rest ∧ taken = ParseTree.charsAll children ∧
    slice? text (utf8Len before) (utf8Len before + utf8Len taken) = some taken ∧
    Guarded.matchTo g text (g.size * (text.length + 1)) id (utf8Len before) ∅ =
      .ok (some (.node name children, taken), memo)

/-- The first best element of a list comes after better ones only. -/
theorem exists_of_argmin_filterMap {α β : Type} {f : α → Option β} {w : β → Nat} {l : List α} {b : β}
    (h : (l.filterMap f).argmin w = some b) :
    ∃ before a after, l = before ++ a :: after ∧ f a = some b ∧
      (∀ x ∈ before, ∀ m, f x = some m → w b < w m) ∧ ∀ x ∈ after, ∀ m, f x = some m → w b ≤ w m := by
  induction l generalizing b with
  | nil => cases h
  | cons x l ih =>
    cases hx : f x with
    | none =>
      rw [List.filterMap_cons, hx] at h
      obtain ⟨before, a, after, rfl, ha, hbefore, hafter⟩ := ih h
      refine ⟨x :: before, a, after, rfl, ha, List.forall_mem_cons.2 ⟨fun m hm => ?_, hbefore⟩, hafter⟩
      rw [hx] at hm
      cases hm
    | some m =>
      rw [List.filterMap_cons, hx, List.argmin_cons] at h
      cases hmin : (l.filterMap f).argmin w with
      | none =>
        rw [hmin] at h
        obtain rfl := Option.some.inj h
        have hnone := List.filterMap_eq_nil_iff.1 (List.argmin_eq_none.1 hmin)
        refine ⟨[], x, l, rfl, hx, nofun, fun y hy m hm => ?_⟩
        rw [hnone y hy] at hm
        cases hm
      | some c =>
        rw [hmin] at h
        obtain ⟨before, a, after, hl, ha, hbefore, hafter⟩ := ih hmin
        change (if w c < w m then some c else some m) = some b at h
        split at h
        next hlt =>
          obtain rfl := Option.some.inj h
          refine ⟨x :: before, a, after, by rw [hl, List.cons_append], ha, ?_, hafter⟩
          refine List.forall_mem_cons.2 ⟨fun m' hm' => ?_, hbefore⟩
          rw [hx] at hm'
          rwa [← Option.some.inj hm']
        next hle =>
          obtain rfl := Option.some.inj h
          refine ⟨[], x, l, rfl, hx, nofun, fun y hy m' hm' => ?_⟩
          have hmem : m' ∈ l.filterMap f := List.mem_filterMap.2 ⟨y, hy, hm'⟩
          exact (Nat.not_lt.1 hle).trans (List.le_of_mem_argmin hmem hmin)

/-- A tree inside a row of matches is the match of one of the symbols at its own place. -/
theorem exists_readSymbol_of_readSymbols {f : Reader} (hf : Spells f) {symbols : List Symbol}
    {cs rest : List Char} {before after : List ParseTree} {t : ParseTree}
    (h : readSymbols f symbols cs = some (before ++ t :: after, rest)) :
    ∃ symbol ∈ symbols, ∃ rest', readSymbol f symbol
      (cs.drop (ParseTree.charsAll before).length) = some (t, rest') := by
  induction before generalizing symbols cs with
  | nil =>
    cases symbols with
    | nil => cases h
    | cons symbol symbols =>
      obtain ⟨tree, mid, trees, hsymbol, -, htrees⟩ := readSymbols_cons.1 h
      obtain ⟨rfl, -⟩ := List.cons.inj htrees
      exact ⟨symbol, List.mem_cons_self, mid, hsymbol⟩
  | cons b before ih =>
    cases symbols with
    | nil => cases h
    | cons symbol symbols =>
      obtain ⟨tree, mid, trees, hsymbol, hsymbols, htrees⟩ := readSymbols_cons.1 h
      obtain ⟨rfl, rfl⟩ := List.cons.inj htrees
      obtain ⟨symbol', hmem, hread⟩ := ih hsymbols
      rw [readSymbol_spells hf hsymbol, ParseTree.charsAll, List.length_append, List.drop_length_add_append]
      exact ⟨symbol', List.mem_cons_of_mem _ hmem, hread⟩

theorem exists_leaf_of_readTerminal {terminal : Terminal} {cs rest : List Char} {tree : ParseTree}
    (h : readTerminal terminal cs = some (tree, rest)) : ∃ c, tree = .leaf c := by
  cases terminal with
  | epsilon => exact ⟨none, (Prod.mk.inj (Option.some.inj h)).1.symm⟩
  | oneOf _ | noneOf _ =>
    cases cs with
    | nil => simp [readTerminal] at h
    | cons c cs =>
      simp only [readTerminal, Option.ite_none_right_eq_some, Option.some.injEq, Prod.mk.injEq] at h
      exact ⟨some c, h.2.1.symm⟩

section NotLeftRecursive

variable (hg : ¬g.LeftRecursive)
include hg

/-- Only non-terminals match as nodes, by the first best of their productions. -/
theorem exists_production_of_readSymbol {symbol : Symbol} {cs rest : List Char} {name : String}
    {children : List ParseTree}
    (h : readSymbol g.longest symbol cs = some (.node name children, rest)) :
    ∃ id before production after, id < g.size ∧ name = g.nameOf id ∧
      g.productionsOf id = before ++ production :: after ∧
      readSymbols g.longest production cs = some (children, rest) ∧
      (∀ other ∈ before, ∀ m, readSymbols g.longest other cs = some m → rest.length < m.2.length) ∧
      ∀ other ∈ after, ∀ m, readSymbols g.longest other cs = some m → rest.length ≤ m.2.length := by
  cases symbol with
  | terminal terminal =>
    obtain ⟨c, hleaf⟩ := exists_leaf_of_readTerminal h
    cases hleaf
  | nonTerminal id =>
    rw [readSymbol, longest_eq hg, readProductions, Option.map_eq_some_iff] at h
    obtain ⟨m, hbest, heq⟩ := h
    obtain ⟨hnode, rfl⟩ := Prod.mk.inj heq
    obtain ⟨rfl, rfl⟩ := ParseTree.node.inj hnode
    obtain ⟨before, production, after, hsplit, hread, hbefore, hafter⟩ :=
      exists_of_argmin_filterMap hbest
    have hmem : production ∈ g.productionsOf id := by
      rw [hsplit]
      exact List.mem_append_right _ List.mem_cons_self
    exact ⟨id, before, production, after, lt_size_of_mem_productionsOf hmem, rfl, hsplit, hread,
      hbefore, hafter⟩

/-- Every tree inside a match is the match of a symbol at its own place. -/
theorem exists_readSymbol_of_occurs {u t : ParseTree} {place cs : List Char}
    (h : ParseTree.Occurs u place t cs) {symbol : Symbol} {rest : List Char}
    (hread : readSymbol g.longest symbol cs = some (t, rest)) :
    ∃ symbol' rest', readSymbol g.longest symbol' place = some (u, rest') := by
  induction h generalizing symbol rest with
  | here => exact ⟨symbol, rest, hread⟩
  | child _ ih =>
    obtain ⟨-, -, production, -, -, -, -, hrow, -⟩ := exists_production_of_readSymbol hg hread
    obtain ⟨symbol', -, rest', hread'⟩ := exists_readSymbol_of_readSymbols (spells_longest g) hrow
    exact ih hread'

variable (hnames : ∀ id, id < g.size → g.lookup (g.nameOf id) = some id)
include hnames

theorem fits_of_readSymbol {symbol : Symbol} {cs rest : List Char} {t : ParseTree}
    (h : readSymbol g.longest symbol cs = some (t, rest)) : g.Fits symbol t := by
  cases symbol with
  | terminal terminal =>
    cases terminal with
    | epsilon => exact (Prod.mk.inj (Option.some.inj h)).1.symm
    | oneOf chars | noneOf chars =>
      cases cs with
      | nil => simp [readSymbol, readTerminal] at h
      | cons c cs =>
        simp only [readSymbol, readTerminal, Option.ite_none_right_eq_some, Option.some.injEq,
          Prod.mk.injEq] at h
        exact ⟨c, h.1, h.2.1.symm⟩
  | nonTerminal id =>
    rw [readSymbol, longest_eq hg] at h
    obtain ⟨production, hmem, trees, -, rfl⟩ := readProductions_eq_some h
    exact ⟨_, hnames id (lt_size_of_mem_productionsOf hmem), rfl⟩

theorem forall₂_fits_of_readSymbols {symbols : List Symbol} {cs rest : List Char}
    {trees : List ParseTree} (h : readSymbols g.longest symbols cs = some (trees, rest)) :
    List.Forall₂ g.Fits symbols trees := by
  induction symbols generalizing cs trees with
  | nil =>
    obtain ⟨rfl, -⟩ := Prod.mk.inj (Option.some.inj h)
    exact .nil
  | cons symbol symbols ih =>
    obtain ⟨tree, mid, trees', hsymbol, hsymbols, htrees⟩ := readSymbols_cons.1 h
    obtain rfl : trees = tree :: trees' := htrees
    exact .cons (fits_of_readSymbol hg hnames hsymbol) (ih hsymbols)

/-- A node that matches somewhere in a text is the choice there, as the table of the text tells. -/
theorem isChoice_of_readSymbol {symbol : Symbol} {text cs rest : List Char} {name : String}
    {children : List ParseTree} (hcs : cs <:+ text)
    (h : readSymbol g.longest symbol cs = some (.node name children, rest)) :
    g.IsChoice (ParseTable.ofText g text) name children cs := by
  obtain ⟨id, before, production, after, hid, rfl, hsplit, hread, hbefore, hafter⟩ :=
    exists_production_of_readSymbol hg h
  have htry (symbols : List Symbol) :=
    (ParseTable.holds_ofText hg text).tryRow_eq symbols hcs
  refine ⟨id, before, production, after, rest, hnames id hid, hsplit,
    forall₂_fits_of_readSymbols hg hnames hread, readSymbols_spells (spells_longest g) hread,
    by rw [htry, hread]; rfl, fun other hother m hm => ?_, fun other hother m hm => ?_⟩
  · rw [htry, Option.map_eq_some_iff] at hm
    obtain ⟨m', hm', rfl⟩ := hm
    exact hbefore other hother m' hm'
  · rw [htry, Option.map_eq_some_iff] at hm
    obtain ⟨m', hm', rfl⟩ := hm
    exact hafter other hother m' hm'

/-- A node that matches somewhere in a text is stored with the part of the text that it took. -/
theorem isStored_of_readSymbol (hclosed : g.Closed) {symbol : Symbol} {text cs rest : List Char}
    {name : String} {children : List ParseTree} (hcs : cs <:+ text)
    (h : readSymbol g.longest symbol cs = some (.node name children, rest)) :
    g.IsStored text name children cs := by
  have hspells : cs = ParseTree.charsAll children ++ rest := readSymbol_spells (spells_longest g) h
  cases symbol with
  | terminal terminal =>
    obtain ⟨c, hleaf⟩ := exists_leaf_of_readTerminal h
    cases hleaf
  | nonTerminal id =>
    obtain ⟨before, rfl⟩ := hcs
    have hlongest : g.longest id cs = some (.node name children, rest) := h
    obtain ⟨production, hmem, trees, -, hnode⟩ :=
      readProductions_eq_some ((longest_eq hg id cs).symm.trans hlongest)
    obtain ⟨rfl, -⟩ := ParseTree.node.inj hnode
    have hid : id < g.size := lt_size_of_mem_productionsOf hmem
    have hdepth : g.depthAt id cs < g.size * ((before ++ cs).length + 1) :=
      (depthAt_lt hg hid cs).trans_le (Nat.mul_le_mul_left _ (by simp))
    obtain ⟨memo, -, hfound⟩ := guarded_matchTo hg hclosed _ hid rfl hdepth ∅ (g.piecesSound_empty _)
    have htaken : takenOf cs rest = ParseTree.charsAll children := by
      rw [hspells, takenOf_append]
    rw [hlongest, Option.map_some, pieceOf, htaken] at hfound
    have hslice := slice?_append before (ParseTree.charsAll children) rest
    rw [← hspells] at hslice
    exact ⟨id, before, _, rest, memo, hnames id hid, rfl, hspells, rfl, hslice, hfound⟩

end NotLeftRecursive

/-- A parse tree is a derivation of the whole text from the start symbol that loses nothing and is
greedy at every node: what its leaves spell is the text, the text of a node is that of its children one
after the other, and each node is the choice at its place. Parsing by byte offsets has the same tree,
and for each node it stores the part of the text that its children spell. -/
theorem parse_tree_greedy (rules : List (String × String)) (hg : ¬(ofRules rules).LeftRecursive)
    {text : String} {root : ParseTree} (h : parse (ofRules rules) text = .ok root) :
    (ofRules rules).Fits (.nonTerminal (ofRules rules).start) root ∧
    root.text = text ∧ root.chars = text.toList ∧
    Guarded.parse (ofRules rules) text = .ok (.ok root) ∧
    ∀ name children place, ParseTree.Occurs (.node name children) place root text.toList →
      (ParseTree.node name children).text = String.join (children.map ParseTree.text) ∧
      (ofRules rules).IsChoice (ParseTable.ofText (ofRules rules) text.toList) name children
        place ∧
      (ofRules rules).IsStored text.toList name children place := by
  have hnames : ∀ id < (ofRules rules).size,
      (ofRules rules).lookup ((ofRules rules).nameOf id) = some id :=
    fun _ hid => lookup_nameOf rules hid
  have hread : readSymbol (ofRules rules).longest (.nonTerminal (ofRules rules).start) text.toList =
      some (root, []) := (parse_eq_ok_iff hg).1 h
  have htext := text_of_parse hg h
  have hclosed : (ofRules rules).Closed := closed_ofRules rules
  refine ⟨fits_of_readSymbol hg hnames hread, htext, ?chars, ?guarded,
    fun name children place hoccurs => ?_⟩
  case chars => rw [← htext, ParseTree.text_eq, String.toList_ofList]
  case guarded =>
    have hlongest : (ofRules rules).longest (ofRules rules).start text.toList = some (root, []) := hread
    obtain ⟨_, hmem, -⟩ := readProductions_eq_some ((longest_eq hg _ _).symm.trans hlongest)
    rw [guarded_parse hg hclosed (lt_size_of_mem_productionsOf hmem), h]
  obtain ⟨symbol, rest, hread'⟩ := exists_readSymbol_of_occurs hg hoccurs hread
  exact ⟨ParseTree.text_node name children, isChoice_of_readSymbol hg hnames hoccurs.suffix hread',
    isStored_of_readSymbol hg hnames hclosed hoccurs.suffix hread'⟩

/-- Two readings of a word that take equally much, of which the first is declared before. -/
def tiedRules : List (String × String) :=
  [("ITEM", "WORD"), ("ITEM", "NAME"), ("WORD", "~_ WORD"), ("WORD", ""), ("NAME", "~_ WORD")]

/-- The tree of `ab` as a word. -/
def tiedTree : ParseTree :=
  .node "ITEM" [.node "WORD" [.leaf (some 'a'),
    .node "WORD" [.leaf (some 'b'), .node "WORD" [.leaf none]]]]

theorem tiedRules_parse_greedy :
    ¬(ofRules tiedRules).LeftRecursive ∧ parse (ofRules tiedRules) "ab" = .ok tiedTree ∧
    (ofRules tiedRules).Fits (.nonTerminal (ofRules tiedRules).start) tiedTree ∧
    tiedTree.text = "ab" ∧ tiedTree.chars = "ab".toList ∧
    Guarded.parse (ofRules tiedRules) "ab" = .ok (.ok tiedTree) ∧
    ∀ name children place, ParseTree.Occurs (.node name children) place tiedTree "ab".toList →
      (ParseTree.node name children).text = String.join (children.map ParseTree.text) ∧
      (ofRules tiedRules).IsChoice (ParseTable.ofText (ofRules tiedRules) "ab".toList) name children
        place ∧
      (ofRules tiedRules).IsStored "ab".toList name children place := by
  have hg : ¬(ofRules tiedRules).LeftRecursive :=
    not_leftRecursive_of_isRankedBy
      (show (ofRules tiedRules).isRankedBy [0, 1] [1, 0, 0] = true by decide +kernel)
  have hparse : parse (ofRules tiedRules) "ab" = .ok tiedTree := by with_unfolding_all rfl
  exact ⟨hg, hparse, parse_tree_greedy tiedRules hg hparse⟩

end Grammar

end PatternText
