import PatternText.Proofs.Pattern.ListScan
import PatternText.Proofs.Program.Compose
import PatternText.Proofs.Program.Outcome

/-! The characters of lists. The walk through the tree of a list finds its items in order, and each item
stands for the character or the range that its list characters mean. The set of the list is made of
those that belong to the base alphabet, or of what is left of the base alphabet without them; so it can
be told from the text of the list by scanning it. -/

namespace PatternText

open ParseTree PatternText.Part

/-! ### Items -/

namespace ListChar

/-- The parts below a list character. -/
def parts : List Part := [.charSpecChar, .nonMetaCharSpec, .escMetaCharSpec, .metaCharSpec]

theorem reads_tree (t : ListChar) : Part.charSpecChar.reads (t.text ++ []) = some (t.tree, []) :=
  Part.reads_charSpecChar t fun _ => nofun

theorem lacks_tree (t : ListChar) {q : Part} (hq : q ∉ parts) : Lacks q.title [t.tree] :=
  lacks_of_reads (by decide +kernel) (by decide) hq t.reads_tree

/-- An item character means itself, without the backslash before a bracket. -/
theorem itemChar_tree (t : ListChar) : t.tree.itemChar = String.ofList [t.char] := by
  have hother {p : Part} (hne : p ≠ .escMetaCharSpec) (ts : List ParseTree) :
      (p.node ts).bears "ESC_META_CHAR_SPEC" = false := bears_eq_false (q := .escMetaCharSpec) hne ts
  cases t with
  | plain c other =>
    have hnone : (plain c other).tree.findFirst "ESC_META_CHAR_SPEC" = none := by
      rw [findFirst, tree, firstNamed_passes (hother (by decide) _)]
      show firstNamed _ [Part.nonMetaCharSpec.node [.leaf (some c)]] = none
      rw [firstNamed_passes (hother (by decide) _)]
      exact firstNamed_of_lacks (lacks_leaves _ [c])
    rw [itemChar, hnone]
    exact chars_of_reads (plain c other).reads_tree
  | bracket =>
    have hfirst : bracket.tree.findFirst "ESC_META_CHAR_SPEC" = some (Part.escMetaCharSpec.node
        [.leaf (some '\\'), Part.metaCharSpec.node [.leaf (some ']')]]) := by
      rw [findFirst, tree, firstNamed_passes (hother (by decide) _)]
      exact firstNamed_bears (beq_self_eq_true _) _
    rw [itemChar, hfirst]
    show (Part.metaCharSpec.node [.leaf (some ']')]).text = _
    rw [text_eq]
    rfl

end ListChar

namespace ListItem

/-- The spec of an item stands for its characters. -/
theorem specChars_itemSpec (item : ListItem) :
    CharSet.specChars item.tree.itemSpec.toList = item.scanned.chars := by
  have hother (ts : List ParseTree) : (Part.charSpec.node ts).bears "RANGE" = false :=
    bears_eq_false (q := .range) (by decide) ts
  cases item with
  | single t =>
    have hnone : (single t).tree.findFirst "RANGE" = none := by
      rw [findFirst, tree, firstNamed_passes (hother _)]
      exact firstNamed_of_lacks (t.lacks_tree (q := .range) (by decide))
    have hspec : (single t).tree.itemSpec = String.ofList [t.char] := by
      rw [itemSpec, hnone]
      exact t.itemChar_tree
    rw [hspec, String.toList_ofList]
    rfl
  | range first last =>
    have hfirst : (range first last).tree.findFirst "RANGE" =
        some (Part.range.node [first.tree, .leaf (some '-'), last.tree]) := by
      rw [findFirst, tree, firstNamed_passes (hother _)]
      exact firstNamed_bears (beq_self_eq_true _) _
    have hspec : (range first last).tree.itemSpec =
        String.ofList [first.char] ++ "-" ++ String.ofList [last.char] := by
      rw [itemSpec, hfirst, ← first.itemChar_tree, ← last.itemChar_tree]
      rfl
    rw [hspec]
    simp only [String.toList_append, String.toList_ofList]
    rfl

end ListItem

/-! ### Sets of lists -/

/-- All items of a repeated part are collected at once. -/
theorem collectNamed_rowTree {p q : Part} (hne : p ≠ q) {us : List ParseTree}
    (hus : ∀ u ∈ us, u.bears q.title = true) (found : Array ParseTree) (ts : List ParseTree) :
    collectNamed q.title found (p.rowTree us :: ts) =
      collectNamed q.title (found ++ us.toArray) ts := by
  induction us generalizing found with
  | nil =>
    rw [rowTree, collectNamed_passes (bears_eq_false hne _), Array.append_empty]
    exact collectNamed_leaf _ _ _ _
  | cons u us ih =>
    obtain ⟨hu, hus⟩ := List.forall_mem_cons.1 hus
    rw [rowTree, collectNamed_passes (bears_eq_false hne _)]
    show collectNamed q.title found (u :: p.rowTree us :: ts) = _
    rw [collectNamed_bears hu, ih hus]
    simp

theorem bears_listItem {u : ParseTree} {items : List ListItem} (h : u ∈ items.map ListItem.tree) :
    u.bears Part.charSpec.title = true := by
  obtain ⟨item, -, rfl⟩ := List.mem_map.1 h
  cases item <;> exact beq_self_eq_true _

namespace CharList

variable (config : Config) (l : CharList)

/-- The characters that a list names, in listing order. -/
def listed : List Char := (listItems l.chars).flatMap fun item => item.scanned.chars

/-- The set that a list stands for. -/
def set : CharSet :=
  let inside := (CharSet.ofChars l.listed).inter config.base
  if l.negated then config.base.diff inside else inside

theorem collectNamed_listTrees (ts : List ListChar) :
    collectNamed Part.charSpec.title #[] (listTrees ts) =
      ((listItems ts).map ListItem.tree).toArray := by
  rw [listTrees]
  cases listItems ts with
  | nil => exact collectNamed.eq_1 _ _
  | cons item items =>
    have hitem : item.tree ∈ [item].map ListItem.tree := List.mem_cons_self
    rw [collectNamed_bears (bears_listItem hitem),
      collectNamed_rowTree (by decide) fun u hu => bears_listItem hu, collectNamed_leaf, collectNamed]
    simp

/-- The items of a list are what is found in its tree. -/
theorem findAll_tree : l.tree.findAll "CHAR_SPEC" = (listItems l.chars).map ListItem.tree := by
  have hother {p : Part} (hne : p ≠ .charSpec) (ts : List ParseTree) :
      collectNamed Part.charSpec.title #[] [p.node ts] =
        collectNamed Part.charSpec.title #[] ts := by
    rw [collectNamed_passes (bears_eq_false hne ts), List.append_nil]
    rfl
  show (collectNamed Part.charSpec.title #[] [l.tree]).toList = _
  rw [tree]
  split
  · rw [hother (by decide), collectNamed_leaf, collectNamed_leaf, collectNamed_listTrees]
  · rw [hother (by decide), collectNamed_leaf, collectNamed_listTrees]

theorem listedChars_tree :
    l.tree.listedChars config = (CharSet.ofChars l.listed).inter config.base := by
  rw [listedChars, findAll_tree, CharSet.ofSpecs, List.map_map, List.flatMap_map, listed]
  simp only [Function.comp_apply, ListItem.specChars_itemSpec]

theorem mem_inside (c : Char) : ((CharSet.ofChars l.listed).inter config.base).contains c = true ↔
    c ∈ l.listed ∧ c ∈ config.base.chars.toList := by
  rw [CharSet.contains_iff, CharSet.toList_inter, CharSet.toList_ofChars, List.mem_filter,
    List.mem_eraseDups, CharSet.contains_iff]

/-- The set of a list in order: the characters it names by first occurrence, as far as they belong to
the base alphabet, or the base alphabet without them. -/
theorem toList_set : (l.set config).chars.toList =
    if l.negated then config.base.chars.toList.filter fun c => decide (c ∉ l.listed)
    else l.listed.eraseDups.filter fun c => decide (c ∈ config.base.chars.toList) := by
  rw [set]
  cases l.negated with
  | true =>
    rw [if_pos rfl, if_pos rfl, CharSet.toList_diff]
    refine List.filter_congr fun c hc => ?_
    rw [Bool.eq_iff_iff, Bool.not_eq_true', ← Bool.not_eq_true, mem_inside, decide_eq_true_iff,
      and_iff_left hc]
  | false =>
    rw [if_neg (by decide), if_neg (by decide), CharSet.toList_inter, CharSet.toList_ofChars]
    refine List.filter_congr fun c hc => ?_
    rw [Bool.eq_iff_iff, CharSet.contains_iff, decide_eq_true_iff]

theorem tree_eq : l.tree =
    (if l.negated then Part.exclusiveList else Part.inclusiveList).node l.tree.children := by
  rw [tree]
  cases l.negated <;> rfl

/-- A list makes a draw from its set, wherever it stands. -/
theorem addForest_list (groups : Nat) (made : List Step) :
    addForest config groups made [Part.char.node [l.tree]] =
      .ok (.oneOf (l.set config) :: made, groups) := by
  have hlisted := l.listedChars_tree config
  rw [addForest_passedOver (by decide), List.append_nil, set]
  rw [l.tree_eq] at hlisted ⊢
  generalize l.negated = negated at hlisted ⊢
  cases negated with
  | true =>
    rw [if_pos rfl] at hlisted ⊢
    rw [addForest_plain rfl rfl, Step.addPlain, hlisted]
    rfl
  | false =>
    rw [if_neg Bool.false_ne_true] at hlisted ⊢
    rw [addForest_plain rfl rfl, Step.addPlain, hlisted]
    rfl

theorem ofText_list : Program.ofText config (String.ofList l.text) =
    .ok ⟨[.oneOf (l.set config)], 0⟩ :=
  Program.ofText_atom (.list l) rfl (l.addForest_list config 0 [])

/-- What a list names can be told by scanning it. -/
theorem listed_eq_scan : l.listed = (scanItems (ListChar.textAll l.chars)).flatMap ScanItem.chars := by
  rw [scanItems_textAll l.clean.alone, List.flatMap_map, listed]

end CharList

/-- The tree is that of a character which is a list, negated or plain. -/
def ReadsAsList (negated : Bool) (t : ParseTree) : Prop :=
  ∃ children, t = Part.char.node
    [(if negated then Part.exclusiveList else Part.inclusiveList).node children]

theorem CharList.readsAsList (l : CharList) : ReadsAsList l.negated (Part.char.node [l.tree]) :=
  ⟨l.tree.children, by rw [← l.tree_eq]⟩

/-- The characters of a list whose text behind the opening bracket is scanned up to the place that
closes it: what the items name, by first occurrence, as far as it belongs to the base alphabet, or the
base alphabet without what they name if a caret negates. -/
def scannedChars (base r : List Char) (k : Nat) : List Char :=
  if r.head? = some '^' ∧ 2 ≤ k then
    base.filter fun c => decide (c ∉ (scanItems ((r.take k).drop 1)).flatMap ScanItem.chars)
  else
    ((scanItems (r.take k)).flatMap ScanItem.chars).eraseDups.filter fun c => decide (c ∈ base)

theorem CharList.toList_set_scanned (config : Config) (l : CharList) {r : List Char} {k : Nat}
    (hbody : r.take k = l.body) (hnegated : l.negated = true ↔ r.head? = some '^' ∧ 2 ≤ k) :
    (l.set config).chars.toList = scannedChars config.base.chars.toList r k := by
  rw [toList_set, scannedChars, hbody, listed_eq_scan, body]
  by_cases h : l.negated = true
  · rw [if_pos h, if_pos (hnegated.1 h), if_pos h]
    rfl
  · rw [if_neg h, if_neg (mt hnegated.2 h), if_neg h]
    rfl

/-- Lists are read as a scanner reads them, at every place of every text. A character that begins with
an opening bracket is matched where the scanner finds a closing one, which ends it; it is negated if a
caret and more than that stands before the end, and the step it makes draws from the characters of the
items that the scanner cuts off from the left. -/
theorem lists_scanned (config : Config) (before r : List Char) :
    let found := (ParseTable.ofText patternGrammar (before ++ '[' :: r)).lookup (r.length + 1)
      Part.char.ctorIdx
    ((∃ m negated, found = some m ∧ ReadsAsList negated m.tree) ↔
      r ≠ [] ∧ r.head? ≠ some ']' ∧ ∃ k, Closes r k) ∧
    (∀ k, r ≠ [] → r.head? ≠ some ']' → Closes r k → ∃ (m : Match) (set : CharSet),
      found = some m ∧ m.rest + (k + 1) = r.length ∧
      ReadsAsList (decide (r.head? = some '^' ∧ 2 ≤ k)) m.tree ∧
      (∀ groups made,
        addForest config groups made [m.tree] = .ok (.oneOf set :: made, groups)) ∧
      set.chars.toList = scannedChars config.base.chars.toList r k) ∧
    ∀ first last, (ScanItem.range first last).chars.Pairwise (· < ·) ∧
      ∀ c, c ∈ (ScanItem.range first last).chars ↔ first ≤ c ∧ c ≤ last := by
  intro found
  have hsuffix : '[' :: r <:+ before ++ '[' :: r := List.suffix_append before _
  have hfound : found = (Part.char.reads ('[' :: r)).map Reading.toMatch :=
    (ParseTable.holds_ofText patternGrammar_not_leftRecursive (before ++ '[' :: r)).lookup_eq
      ('[' :: r) hsuffix (Nat.lt_succ_of_le hsuffix.length_le) Part.char.ctorIdx
  have hlist {k : Nat} (hne : r ≠ []) (hhead : r.head? ≠ some ']') (hk : Closes r k) :
      ∃ l : CharList, r.take k = l.body ∧ k = l.body.length ∧
        found = some ⟨Part.char.node [l.tree], r.length - (k + 1)⟩ := by
    obtain ⟨l, hbody, hlength, hread⟩ := exists_list_of_closes hne hhead hk
    refine ⟨l, hbody, hlength, ?_⟩
    rw [hfound, hread, ← List.length_drop]
    rfl
  refine ⟨⟨?_, ?_⟩, fun k hne hhead hk => ?_, fun first last => ?_⟩
  · rintro ⟨m, negated, hm, -⟩
    apply isSome_reads_char_iff.1
    rw [← Option.isSome_map (f := Reading.toMatch), ← hfound, hm]
    rfl
  · rintro ⟨hne, hhead, k, hk⟩
    obtain ⟨l, -, -, hm⟩ := hlist hne hhead hk
    exact ⟨_, l.negated, hm, l.readsAsList⟩
  · obtain ⟨l, hbody, hlength, hm⟩ := hlist hne hhead hk
    have hlt : k < r.length := (List.getElem?_eq_some_iff.1 hk.1.2.1).1
    have hnegated : l.negated = true ↔ r.head? = some '^' ∧ 2 ≤ k := by
      rw [l.negated_iff, ← hlength, ← hbody, List.head?_take, if_neg (Nat.one_le_iff_ne_zero.1 hk.1.1)]
    refine ⟨_, l.set config, hm, Nat.sub_add_cancel hlt, ?_, l.addForest_list config,
      l.toList_set_scanned config hbody hnegated⟩
    have hnegated' : decide (r.head? = some '^' ∧ 2 ≤ k) = l.negated := by
      rw [Bool.eq_iff_iff, decide_eq_true_iff, hnegated]
    rw [hnegated']
    exact l.readsAsList
  · exact ⟨CharSet.pairwise_charRange first last, fun c => CharSet.mem_charRange⟩

/-- The text behind the bracket that opens the list. -/
def negatedRange : List Char := ['^', '\\', ']', '-', '_', ']', 'x']

theorem negatedRange_scanned :
    negatedRange ≠ [] ∧ negatedRange.head? ≠ some ']' ∧ Closes negatedRange 5 ∧
      ∃ (m : Match) (set : CharSet),
        (ParseTable.ofText patternGrammar ('a' :: '[' :: negatedRange)).lookup
          (negatedRange.length + 1) Part.char.ctorIdx = some m ∧
        m.rest = 1 ∧ ReadsAsList true m.tree ∧ set.chars.toList = ['`', 'a', 'b'] := by
  have hclean : ListChar.Clean [.caret, .bracket, .plain '-' (by decide), .plain '_' (by decide)]
      [']', 'x'] := ⟨nofun, nofun, nofun, nofun, .inr rfl⟩
  have hcloses : Closes negatedRange 5 := closes_textAll (List.cons_ne_nil _ _) hclean
  have hbase : (Config.ofSettings { base := ["]-b"] }).base.chars.toList =
      [']', '^', '_', '`', 'a', 'b'] := by
    refine (CharSet.toList_ofChars _).trans ?_
    decide
  have hitems : scanItems ((negatedRange.take 5).drop 1) = [.range ']' '_'] := by
    rw [scanItems_of_some (rfl : scanItem _ = some (.range ']' '_', [])), scanItems_nil]
  obtain ⟨-, hset, -⟩ := lists_scanned (Config.ofSettings { base := ["]-b"] }) ['a'] negatedRange
  obtain ⟨m, set, hm, hrest, hlist, -, hchars⟩ := hset 5 (by decide) (by decide) hcloses
  refine ⟨by decide, by decide, hcloses, m, set, hm, Nat.add_right_cancel hrest, hlist, ?_⟩
  rw [hchars, hbase, scannedChars, if_pos (by decide), hitems]
  decide

end PatternText
