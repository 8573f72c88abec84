import PatternText.Program.Compile
import PatternText.Proofs.Guarded.Parsing
import PatternText.Proofs.Pattern.Parts
import PatternText.Proofs.Program.Shift

/-! Programs from parse trees with every child looked for. The characters of a list are read from
children at fixed places of its items, ranges and escapes. In a parse tree of a pattern a node has as
many children as a production of its non-terminal has symbols, so these children exist wherever such a
node stands, and compilation is what it is without looking. -/

namespace PatternText

open ParseTree

namespace ParseTree

theorem sizeOf_singleton_le (t : ParseTree) (ts : List ParseTree) : sizeOf [t] ≤ sizeOf (t :: ts) := by
  cases ts with
  | nil => exact Nat.le_refl _
  | cons u ts =>
    simp only [List.cons.sizeOf_spec, List.nil.sizeOf_spec]
    omega

theorem sizeOf_firstNamed_children_lt {name : String} {t inner : ParseTree}
    (h : firstNamed name t.children = some inner) : sizeOf [inner] < sizeOf [t] := by
  have hinner := sizeOf_firstNamed_lt h
  cases t with
  | leaf c => rw [children, firstNamed] at h; cases h
  | node name children =>
    simp only [ParseTree.children, List.cons.sizeOf_spec, List.nil.sizeOf_spec, node.sizeOf_spec]
      at hinner ⊢
    omega

end ParseTree

namespace Guarded

def child (t : ParseTree) (i : Nat) : Guarded ParseTree := require (.child i) t.children[i]?

/-- The character of a list item, without the backslash of an escaped bracket. -/
def itemChar (item : ParseTree) : Guarded String :=
  match item.findFirst "ESC_META_CHAR_SPEC" with
  | some escaped => (child escaped 1).map text
  | none => .ok item.text

/-- The spec of a list item: a range by its two ends, or a single character. -/
def itemSpec (item : ParseTree) : Guarded String :=
  match item.findFirst "RANGE" with
  | some range => do
    let first ← itemChar (← child range 0)
    let last ← itemChar (← child range 2)
    .ok (first ++ "-" ++ last)
  | none => do itemChar (← child item 0)

/-- The characters of a list that belong to the base alphabet, in listing order. -/
def listedChars (config : Config) (t : ParseTree) : Guarded CharSet := do
  let specs ← (t.findAll "CHAR_SPEC").mapM itemSpec
  .ok ((CharSet.ofSpecs specs).inter config.base)

/-- The steps after a construct that holds no steps of its own. Only lists read children by place. -/
def addPlain (config : Config) (made : List Step) (t : ParseTree) :
    Construct → Guarded (Except CompileError (List Step))
  | .inclusiveList => do
    let chars ← listedChars config t
    .ok (.ok (.oneOf chars :: made))
  | .exclusiveList => do
    let chars ← listedChars config t
    .ok (.ok (.oneOf (config.base.diff chars) :: made))
  | c => .ok (Step.addPlain config made t c)

mutual

/-- The steps of a forest after those made before it, the last first, and the number of groups that
have opened so far. -/
def addForest (config : Config) (groups : Nat) (made : List Step) :
    List ParseTree → Guarded (Except CompileError (List Step × Nat))
  | [] => .ok (.ok (made, groups))
  | t :: ts =>
    match t.construct? with
    | none => addForest config groups made (t.children ++ ts)
    | some c =>
      match addConstruct config groups made t c with
      | .ok (.ok (made, groups)) => addForest config groups made ts
      | .ok (.error e) => .ok (.error e)
      | .error stop => .error stop
termination_by ts => 3 * sizeOf ts + 1
decreasing_by
  · have := sizeOf_children_append_lt t ts
    omega
  · have := sizeOf_singleton_le t ts
    omega
  · have := sizeOf_tail_lt t ts
    omega

/-- The steps after one construct. -/
def addConstruct (config : Config) (groups : Nat) (made : List Step) (t : ParseTree) (c : Construct) :
    Guarded (Except CompileError (List Step × Nat)) :=
  match c with
  | .group =>
    match h : firstNamed "REGEX" t.children with
    | some inner =>
      match addForest config (groups + 1) [] [inner] with
      | .ok (.ok (body, opened)) => .ok (.ok (.group groups body.reverse :: made, opened))
      | .ok (.error e) => .ok (.error e)
      | .error stop => .error stop
    | none => .ok (.ok (.group groups [] :: made, groups + 1))
  | .alternatives =>
    match addBranches config groups [] (collectNamed "TERM" #[] t.children).toList with
    | .ok (.ok (branches, groups)) => .ok (.ok (.alternation branches.reverse :: made, groups))
    | .ok (.error e) => .ok (.error e)
    | .error stop => .error stop
  | c =>
    match addPlain config made t c with
    | .ok (.ok made) => .ok (.ok (made, groups))
    | .ok (.error e) => .ok (.error e)
    | .error stop => .error stop
termination_by 3 * sizeOf [t]
decreasing_by
  · have := sizeOf_firstNamed_children_lt h
    omega
  · have := sizeOf_outermost_le "TERM" t.children
    have := sizeOf_children_lt t
    omega

/-- The branches of an alternation after those made before, the last first. -/
def addBranches (config : Config) (groups : Nat) (made : List (List Step)) :
    List ParseTree → Guarded (Except CompileError (List (List Step) × Nat))
  | [] => .ok (.ok (made, groups))
  | term :: terms =>
    match addForest config groups [] [term] with
    | .ok (.ok (branch, groups)) => addBranches config groups (branch.reverse :: made) terms
    | .ok (.error e) => .ok (.error e)
    | .error stop => .error stop
termination_by terms => 3 * sizeOf terms + 2
decreasing_by
  · have := sizeOf_singleton_le term terms
    omega
  · have := sizeOf_tail_lt term terms
    omega

end

/-- The program of a parse tree. -/
def ofTree (config : Config) (tree : ParseTree) : Guarded (Except CompileError Program) := do
  match ← addForest config 0 [] [tree] with
  | .ok (made, groupCount) =>
    let program : Program := { steps := made.reverse, groupCount }
    .ok (if nestingLimit < program.depth then .error (.tooDeep nestingLimit) else .ok program)
  | .error e => .ok (.error e)

/-- The program of a pattern. -/
def ofPattern (config : Config) (pattern : String) : Guarded (Except CompileError Program) :=
  if patternLimit < pattern.utf8ByteSize then
    .ok (.error (.tooLong pattern.utf8ByteSize patternLimit))
  else do
    match ← parse patternGrammar pattern with
    | .ok tree => ofTree config tree
    | .error e => .ok (.error (.parse e))

end Guarded

/-! ### The shape of parse trees -/

/-- The number of children that are read by place from a node of this name. -/
def childrenRead (name : String) : Nat :=
  if name = "RANGE" then 3 else if name = "ESC_META_CHAR_SPEC" then 2
  else if name = "CHAR_SPEC" then 1 else 0

/-- Every node of the tree has the children that are read from it. -/
inductive Shaped : ParseTree → Prop where
  | leaf (c : Option Char) : Shaped (.leaf c)
  | node {name : String} {children : List ParseTree} (hcount : childrenRead name ≤ children.length)
      (hchildren : ∀ t ∈ children, Shaped t) : Shaped (.node name children)

namespace Grammar

/-- Productions name non-terminals of the grammar only, and have a symbol for every child that is
read. -/
def shapes (g : Grammar) : Bool :=
  (List.range g.size).all fun id => (g.productionsOf id).all fun production =>
    childrenRead (g.nameOf id) ≤ production.length && production.all fun
      | .nonTerminal b => b < g.size
      | .terminal _ => true

variable {g : Grammar}

theorem shapes_production (h : g.shapes = true) {id : Nat} {production : List Symbol}
    (hmem : production ∈ g.productionsOf id) :
    childrenRead (g.nameOf id) ≤ production.length ∧
      ∀ b, .nonTerminal b ∈ production → b < g.size := by
  have hid := List.mem_range.2 (lt_size_of_mem_productionsOf hmem)
  have hall := List.all_eq_true.1 (List.all_eq_true.1 h id hid) production hmem
  rw [Bool.and_eq_true, decide_eq_true_iff, List.all_eq_true] at hall
  exact ⟨hall.1, fun b hb => of_decide_eq_true (hall.2 _ hb)⟩

theorem closed_of_shapes (h : g.shapes = true) : g.Closed :=
  fun _ _ hmem => (shapes_production h hmem).2

theorem shaped_of_readSymbols {f : Reader}
    (hf : ∀ id cs tree rest, f id cs = some (tree, rest) → Shaped tree) {symbols : List Symbol}
    {cs rest : List Char} {trees : List ParseTree} (h : readSymbols f symbols cs = some (trees, rest)) :
    trees.length = symbols.length ∧ ∀ t ∈ trees, Shaped t := by
  induction symbols generalizing cs trees with
  | nil =>
    cases h
    exact ⟨rfl, nofun⟩
  | cons symbol symbols ih =>
    obtain ⟨tree, mid, trees', hsymbol, hsymbols, htrees⟩ := readSymbols_cons.1 h
    obtain rfl : trees = tree :: trees' := htrees
    obtain ⟨hlength, hshaped⟩ := ih hsymbols
    refine ⟨by rw [List.length_cons, hlength, List.length_cons], List.forall_mem_cons.2 ⟨?_, hshaped⟩⟩
    cases symbol with
    | nonTerminal id => exact hf id cs tree mid hsymbol
    | terminal terminal =>
      cases tree with
      | leaf c => exact .leaf c
      | node name children =>
        exfalso
        cases terminal with
        | epsilon => cases hsymbol
        | oneOf _ | noneOf _ =>
          cases cs with
          | nil => cases hsymbol
          | cons c cs =>
            simp only [readSymbol, readTerminal, Option.ite_none_right_eq_some, Option.some.injEq,
              Prod.mk.injEq] at hsymbol
            cases hsymbol.2.1

theorem shaped_of_readTo (h : g.shapes = true) (depth : Nat) {id : Nat} {cs rest : List Char}
    {tree : ParseTree} (hread : g.readTo depth id cs = some (tree, rest)) : Shaped tree := by
  induction depth generalizing id cs tree rest with
  | zero => cases hread
  | succ depth ih =>
    obtain ⟨production, hmem, trees, htrees, rfl⟩ := readProductions_eq_some hread
    obtain ⟨hlength, hshaped⟩ := shaped_of_readSymbols (fun _ _ _ _ => ih) htrees
    exact .node (hlength ▸ (shapes_production h hmem).1) hshaped

end Grammar

theorem patternGrammar_shapes : patternGrammar.shapes = true := by
  rw [patternGrammar_eq]
  decide +kernel

theorem shaped_of_parse {pattern : String} {tree : ParseTree}
    (h : parse patternGrammar pattern = .ok tree) : Shaped tree := by
  rw [parse_eq_outcomeOf patternGrammar_not_leftRecursive] at h
  cases hread : patternGrammar.longest patternGrammar.start pattern.toList with
  | none =>
    rw [hread] at h
    cases h
  | some m =>
    obtain ⟨tree', rest⟩ := m
    rw [hread] at h
    cases rest with
    | nil =>
      cases h
      exact Grammar.shaped_of_readTo patternGrammar_shapes _ hread
    | cons c rest => cases h

/-! ### Children that are read exist -/

namespace Shaped

variable {t : ParseTree} {ts : List ParseTree} {name : String}

theorem of_mem_children (h : Shaped t) : ∀ u ∈ t.children, Shaped u := by
  cases h with
  | leaf c => exact nofun
  | node _ hchildren => exact hchildren

theorem children_append (h : ∀ u ∈ t :: ts, Shaped u) : ∀ u ∈ t.children ++ ts, Shaped u := by
  obtain ⟨ht, hts⟩ := List.forall_mem_cons.1 h
  exact List.forall_mem_append.2 ⟨ht.of_mem_children, hts⟩

/-- A node of this name has the children that are read from it. -/
theorem childrenRead_le (h : Shaped t) (hbears : t.bears name = true) :
    childrenRead name ≤ t.children.length := by
  cases h with
  | leaf c => cases hbears
  | node hcount _ =>
    rw [bears, name?, beq_iff_eq, Option.some.injEq] at hbears
    exact hbears ▸ hcount

theorem of_firstNamed {u : ParseTree} (hts : ∀ t ∈ ts, Shaped t) (h : firstNamed name ts = some u) :
    Shaped u ∧ u.bears name = true := by
  fun_induction firstNamed name ts with
  | case1 => cases h
  | case2 t ts hbears =>
    cases h
    exact ⟨hts _ List.mem_cons_self, hbears⟩
  | case3 t ts _ ih => exact ih (children_append hts) h

theorem of_collectNamed {found : Array ParseTree} (hts : ∀ t ∈ ts, Shaped t)
    (hfound : ∀ t ∈ found.toList, Shaped t ∧ t.bears name = true) :
    ∀ t ∈ (collectNamed name found ts).toList, Shaped t ∧ t.bears name = true := by
  fun_induction collectNamed name found ts with
  | case1 => exact hfound
  | case2 found t ts hbears ih =>
    obtain ⟨ht, hts⟩ := List.forall_mem_cons.1 hts
    refine ih hts ?_
    rw [Array.toList_push]
    exact List.forall_mem_append.2 ⟨hfound, List.forall_mem_singleton.2 ⟨ht, hbears⟩⟩
  | case3 found t ts _ ih => exact ih (children_append hts) hfound

theorem of_inner {u : ParseTree} (ht : Shaped t) (h : firstNamed name t.children = some u) :
    Shaped u :=
  (of_firstNamed ht.of_mem_children h).1

theorem of_outermost (ht : Shaped t) : ∀ u ∈ (collectNamed name #[] t.children).toList, Shaped u := by
  have hall : ∀ u ∈ (collectNamed name #[] t.children).toList, Shaped u ∧ u.bears name = true :=
    of_collectNamed ht.of_mem_children nofun
  exact fun u hu => (hall u hu).1

theorem of_findFirst {u : ParseTree} (ht : Shaped t) (h : t.findFirst name = some u) :
    Shaped u ∧ u.bears name = true :=
  of_firstNamed (List.forall_mem_singleton.2 ht) h

theorem of_findAll (ht : Shaped t) : ∀ u ∈ t.findAll name, Shaped u ∧ u.bears name = true :=
  of_collectNamed (List.forall_mem_singleton.2 ht) nofun

end Shaped

section Reading

variable {t : ParseTree}

theorem guarded_child {i : Nat} (h : i < t.children.length) :
    Guarded.child t i = .ok t.children[i] :=
  require_some (List.getElem?_eq_getElem h)

theorem guarded_itemChar (h : Shaped t) : Guarded.itemChar t = .ok t.itemChar := by
  rw [Guarded.itemChar, ParseTree.itemChar]
  cases hfirst : t.findFirst "ESC_META_CHAR_SPEC" with
  | none => rfl
  | some escaped =>
    obtain ⟨hescaped, hbears⟩ := h.of_findFirst hfirst
    have hlt : 1 < escaped.children.length := hescaped.childrenRead_le hbears
    dsimp only
    rw [guarded_child hlt, childText, List.getElem?_eq_getElem hlt]
    rfl

/-- The character of a child that exists. -/
theorem guarded_itemChar_child (h : Shaped t) {i : Nat} (hi : i < t.children.length) :
    (do Guarded.itemChar (← Guarded.child t i) : Guarded String) =
      .ok (((t.children[i]?).map ParseTree.itemChar).getD "") := by
  rw [guarded_child hi, List.getElem?_eq_getElem hi]
  exact guarded_itemChar (h.of_mem_children _ (List.getElem_mem hi))

theorem guarded_itemSpec (h : Shaped t) (hbears : t.bears "CHAR_SPEC" = true) :
    Guarded.itemSpec t = .ok t.itemSpec := by
  rw [Guarded.itemSpec, ParseTree.itemSpec]
  cases hfirst : t.findFirst "RANGE" with
  | none => exact guarded_itemChar_child h (h.childrenRead_le hbears)
  | some range =>
    obtain ⟨hrange, hnamed⟩ := h.of_findFirst hfirst
    have hlt : 2 < range.children.length := hrange.childrenRead_le hnamed
    have hlo := guarded_itemChar_child hrange (show 0 < range.children.length by omega)
    have hhi := guarded_itemChar_child hrange hlt
    simp only [bind, Except.bind] at hlo hhi ⊢
    rw [guarded_child (by omega)] at hlo ⊢
    rw [guarded_child hlt] at hhi ⊢
    dsimp only at hlo hhi ⊢
    rw [hlo]
    dsimp only
    rw [hhi]

theorem mapM_eq_ok {α β : Type} {f : α → Guarded β} {f' : α → β} {l : List α}
    (h : ∀ a ∈ l, f a = .ok (f' a)) : l.mapM f = .ok (l.map f') := by
  induction l with
  | nil => rfl
  | cons a l ih =>
    obtain ⟨ha, hl⟩ := List.forall_mem_cons.1 h
    rw [List.mapM_cons, ha, ih hl]
    rfl

theorem guarded_listedChars (config : Config) (h : Shaped t) :
    Guarded.listedChars config t = .ok (t.listedChars config) := by
  rw [Guarded.listedChars, mapM_eq_ok fun u hu =>
    guarded_itemSpec (h.of_findAll u hu).1 (h.of_findAll u hu).2]
  rfl

theorem guarded_addPlain (config : Config) (made : List Step) (c : Construct) (h : Shaped t) :
    Guarded.addPlain config made t c = .ok (Step.addPlain config made t c) := by
  cases c with
  | inclusiveList | exclusiveList =>
    rw [Guarded.addPlain, guarded_listedChars config h]
    rfl
  | literal | escaped | anyOf _ | group | backref | source | numeric | zeroOrMore | zeroOrOne
  | oneOrMore | exactly | atLeast | between | alternatives => rfl

end Reading

/-! ### Building -/

section Construct

variable {config : Config} {groups : Nat} {made : List Step} {t : ParseTree}

theorem guarded_group {inner : ParseTree} (h : firstNamed "REGEX" t.children = some inner)
    (hbody : Guarded.addForest config (groups + 1) [] [inner] =
      .ok (ParseTree.addForest config (groups + 1) [] [inner])) :
    Guarded.addConstruct config groups made t .group =
      .ok (ParseTree.addConstruct config groups made t .group) := by
  rw [ParseTree.addConstruct_group h, Guarded.addConstruct]
  split
  next inner' h' =>
    obtain rfl : inner = inner' := Option.some.inj (h.symm.trans h')
    rw [hbody]
    cases ParseTree.addForest config (groups + 1) [] [inner] <;> rfl
  next h' => cases h.symm.trans h'

theorem guarded_group_none (h : firstNamed "REGEX" t.children = none) :
    Guarded.addConstruct config groups made t .group =
      .ok (ParseTree.addConstruct config groups made t .group) := by
  rw [ParseTree.addConstruct_group_none h, Guarded.addConstruct]
  split
  next inner' h' => cases h.symm.trans h'
  next => rfl

theorem guarded_alternatives
    (hbranches : Guarded.addBranches config groups [] (collectNamed "TERM" #[] t.children).toList =
      .ok (ParseTree.addBranches config groups [] (collectNamed "TERM" #[] t.children).toList)) :
    Guarded.addConstruct config groups made t .alternatives =
      .ok (ParseTree.addConstruct config groups made t .alternatives) := by
  rw [ParseTree.addConstruct, Guarded.addConstruct, hbranches]
  cases ParseTree.addBranches config groups [] (collectNamed "TERM" #[] t.children).toList <;> rfl

theorem guarded_plain {c : Construct} (hgroup : c ≠ .group) (halternatives : c ≠ .alternatives)
    (h : Shaped t) : Guarded.addConstruct config groups made t c =
      .ok (ParseTree.addConstruct config groups made t c) := by
  rw [ParseTree.addConstruct_plain hgroup halternatives, Guarded.addConstruct,
    guarded_addPlain config made c h]
  · cases Step.addPlain config made t c <;> rfl
  · exact hgroup
  · exact halternatives

end Construct

theorem guarded_build (config : Config) :
    (∀ groups made ts, (∀ t ∈ ts, Shaped t) →
      Guarded.addForest config groups made ts = .ok (ParseTree.addForest config groups made ts)) ∧
    (∀ groups made t c, Shaped t →
      Guarded.addConstruct config groups made t c =
        .ok (ParseTree.addConstruct config groups made t c)) ∧
    ∀ groups made ts, (∀ t ∈ ts, Shaped t) →
      Guarded.addBranches config groups made ts = .ok (ParseTree.addBranches config groups made ts) := by
  apply ParseTree.addForest.mutual_induct config
    (fun groups made ts => (∀ t ∈ ts, Shaped t) →
      Guarded.addForest config groups made ts = .ok (ParseTree.addForest config groups made ts))
    (fun groups made t c => Shaped t → Guarded.addConstruct config groups made t c =
      .ok (ParseTree.addConstruct config groups made t c))
    (fun groups made ts => (∀ t ∈ ts, Shaped t) →
      Guarded.addBranches config groups made ts = .ok (ParseTree.addBranches config groups made ts))
  case case1 =>
    intro groups made _
    rw [Guarded.addForest, ParseTree.addForest]
  case case2 =>
    intro groups made t ts hnone ih h
    rw [Guarded.addForest, ParseTree.addForest, hnone]
    exact ih (Shaped.children_append h)
  case case3 =>
    intro groups made t ts c hsome made' groups' hconstruct ihc ih h
    obtain ⟨ht, hts⟩ := List.forall_mem_cons.1 h
    rw [Guarded.addForest, ParseTree.addForest, hsome]
    dsimp only
    rw [ihc ht, hconstruct]
    exact ih hts
  case case4 =>
    intro groups made t ts c hsome e hconstruct ihc h
    obtain ⟨ht, -⟩ := List.forall_mem_cons.1 h
    rw [Guarded.addForest, ParseTree.addForest, hsome]
    dsimp only
    rw [ihc ht, hconstruct]
  case case5 =>
    intro groups made t inner hinner body opened hbody ih h
    exact guarded_group hinner (ih (List.forall_mem_singleton.2 (h.of_inner hinner)))
  case case6 =>
    intro groups made t inner hinner e hbody ih h
    exact guarded_group hinner (ih (List.forall_mem_singleton.2 (h.of_inner hinner)))
  case case7 =>
    intro groups made t hnone h
    exact guarded_group_none hnone
  case case8 =>
    intro groups made t branches opened hbranches ih h
    exact guarded_alternatives (ih h.of_outermost)
  case case9 =>
    intro groups made t e hbranches ih h
    exact guarded_alternatives (ih h.of_outermost)
  case case10 =>
    intro groups made t c hgroup halternatives made' hplain h
    exact guarded_plain hgroup halternatives h
  case case11 =>
    intro groups made t c hgroup halternatives e hplain h
    exact guarded_plain hgroup halternatives h
  case case12 =>
    intro groups made _
    rw [Guarded.addBranches, ParseTree.addBranches]
  case case13 =>
    intro groups made t ts made' groups' hforest ihf ih h
    obtain ⟨ht, hts⟩ := List.forall_mem_cons.1 h
    rw [Guarded.addBranches, ParseTree.addBranches, ihf (List.forall_mem_singleton.2 ht), hforest]
    exact ih hts
  case case14 =>
    intro groups made t ts e hforest ihf h
    obtain ⟨ht, -⟩ := List.forall_mem_cons.1 h
    rw [Guarded.addBranches, ParseTree.addBranches, ihf (List.forall_mem_singleton.2 ht), hforest]

theorem guarded_ofTree (config : Config) {tree : ParseTree} (h : Shaped tree) :
    Guarded.ofTree config tree = .ok (Program.ofTree config tree) := by
  rw [Guarded.ofTree, (guarded_build config).1 0 [] [tree] (List.forall_mem_singleton.2 h),
    Program.ofTree]
  cases ParseTree.addForest config 0 [] [tree] <;> rfl

theorem guarded_parsePattern (pattern : String) :
    Guarded.parse patternGrammar pattern = .ok (parse patternGrammar pattern) :=
  guarded_parse patternGrammar_not_leftRecursive (Grammar.closed_of_shapes patternGrammar_shapes)
    (by rw [patternGrammar_eq]; decide) pattern

/-- Parsing and building a pattern commit no breach: they end as they do without looking. -/
theorem guarded_ofPattern (config : Config) (pattern : String) :
    Guarded.ofPattern config pattern = .ok (Program.ofPattern config pattern) := by
  rw [Guarded.ofPattern, Program.ofPattern, patternTree, guarded_parsePattern]
  by_cases hlong : patternLimit < pattern.utf8ByteSize
  · rw [if_pos hlong, if_pos hlong]
  · rw [if_neg hlong, if_neg hlong]
    cases htree : parse patternGrammar pattern with
    | error e => rfl
    | ok tree => exact guarded_ofTree config (shaped_of_parse htree)

end PatternText
