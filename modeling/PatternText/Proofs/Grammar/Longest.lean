import Mathlib.Data.List.MinMax
import PatternText.Grammar.Longest
import PatternText.Proofs.Grammar.LeftRecursion

/-! Longest matches without a table. A non-terminal matches at a place by trying every production there,
each symbol contributing its own single longest match; the production that takes the most is kept, the
first declared among equals. A place is the text that remains. The recursion never ends on a
left-recursive grammar, so it is cut at a depth; without left recursion a depth that depends on the
length of the text is never reached, and the recursive equation holds. -/

namespace PatternText

/-- A tree, and the text after what it took. -/
abbrev Reading := ParseTree × List Char

/-- What non-terminals match at places. -/
abbrev Reader := Nat → List Char → Option Reading

namespace Grammar

variable {g : Grammar} {f f' : Reader}

def readTerminal : Terminal → List Char → Option Reading
  | .epsilon, cs => some (.leaf none, cs)
  | _, [] => none
  | terminal, c :: cs => if terminal.accepts c then some (.leaf (some c), cs) else none

def readSymbol (f : Reader) : Symbol → List Char → Option Reading
  | .terminal terminal, cs => readTerminal terminal cs
  | .nonTerminal id, cs => f id cs

/-- The trees of symbols one after the other, each by its own match. -/
def readSymbols (f : Reader) : List Symbol → List Char → Option (List ParseTree × List Char)
  | [], cs => some ([], cs)
  | symbol :: symbols, cs =>
    match readSymbol f symbol cs with
    | none => none
    | some (tree, rest) =>
      (readSymbols f symbols rest).map fun (trees, rest) => (tree :: trees, rest)

/-- The match that takes the most, the first among equals, of all productions of a non-terminal, with
`f` for the non-terminals in them. -/
def readProductions (g : Grammar) (f : Reader) : Reader := fun id cs =>
  (((g.productionsOf id).filterMap (readSymbols f · cs)).argmin fun m => m.2.length).map fun m =>
    (.node (g.nameOf id) m.1, m.2)

/-- What a non-terminal matches, as far as a recursion of the given depth tells. -/
def readTo (g : Grammar) : Nat → Reader
  | 0 => fun _ _ => none
  | depth + 1 => g.readProductions (g.readTo depth)

/-- The longest match of a non-terminal. -/
def longest (g : Grammar) : Reader := fun id cs => g.readTo (g.size * (cs.length + 1)) id cs

/-! ### What is taken -/

/-- What the reader takes comes from the front of the text, and it takes nothing only for what can
match the empty text. -/
def Progressive (g : Grammar) (f : Reader) : Prop :=
  ∀ id cs tree rest, f id cs = some (tree, rest) →
    rest <:+ cs ∧ (rest = cs → g.Nullable (.nonTerminal id))

theorem readTerminal_progress {terminal : Terminal} {cs rest : List Char} {tree : ParseTree}
    (h : readTerminal terminal cs = some (tree, rest)) :
    rest <:+ cs ∧ (rest = cs → g.Nullable (.terminal terminal)) := by
  cases terminal with
  | epsilon =>
    simp only [readTerminal, Option.some.injEq, Prod.mk.injEq] at h
    exact ⟨h.2 ▸ List.suffix_rfl, fun _ => .epsilon⟩
  | oneOf _ | noneOf _ =>
    cases cs with
    | nil => simp [readTerminal] at h
    | cons c cs =>
      simp only [readTerminal, Option.ite_none_right_eq_some, Option.some.injEq,
        Prod.mk.injEq] at h
      obtain ⟨-, -, rfl⟩ := h
      exact ⟨List.suffix_cons c cs, fun h => absurd h.symm (List.cons_ne_self c _)⟩

theorem readSymbol_progress (hf : g.Progressive f) {symbol : Symbol} {cs rest : List Char}
    {tree : ParseTree} (h : readSymbol f symbol cs = some (tree, rest)) :
    rest <:+ cs ∧ (rest = cs → g.Nullable symbol) := by
  cases symbol with
  | terminal terminal => exact readTerminal_progress h
  | nonTerminal id => exact hf id cs tree rest h

theorem readSymbols_cons {symbol : Symbol} {symbols : List Symbol} {cs : List Char}
    {m : List ParseTree × List Char} :
    readSymbols f (symbol :: symbols) cs = some m ↔
      ∃ tree rest trees, readSymbol f symbol cs = some (tree, rest) ∧
        readSymbols f symbols rest = some (trees, m.2) ∧ m.1 = tree :: trees := by
  rw [readSymbols]
  constructor
  · intro h
    split at h
    · simp at h
    next tree rest hsymbol =>
      obtain ⟨⟨trees, after⟩, hsymbols, rfl⟩ := Option.map_eq_some_iff.1 h
      exact ⟨tree, rest, trees, hsymbol, hsymbols, rfl⟩
  · rintro ⟨tree, rest, trees, hsymbol, hsymbols, hm⟩
    rw [hsymbol]
    exact Option.map_eq_some_iff.2 ⟨_, hsymbols, Prod.ext hm.symm rfl⟩

theorem readSymbols_progress (hf : g.Progressive f) {symbols : List Symbol} {cs rest : List Char}
    {trees : List ParseTree} (h : readSymbols f symbols cs = some (trees, rest)) :
    rest <:+ cs ∧ (rest = cs → ∀ s ∈ symbols, g.Nullable s) := by
  induction symbols generalizing cs trees with
  | nil =>
    simp only [readSymbols, Option.some.injEq, Prod.mk.injEq] at h
    exact ⟨h.2 ▸ List.suffix_rfl, fun _ s hs => absurd hs List.not_mem_nil⟩
  | cons symbol symbols ih =>
    obtain ⟨tree, mid, trees', hsymbol, hsymbols, -⟩ := readSymbols_cons.1 h
    obtain ⟨hmid, hnull⟩ := readSymbol_progress hf hsymbol
    obtain ⟨hrest, hnulls⟩ := ih hsymbols
    refine ⟨hrest.trans hmid, fun heq s hs => ?_⟩
    subst heq
    have hmideq : mid = rest := hmid.eq_of_length_le hrest.length_le
    subst hmideq
    rcases List.mem_cons.1 hs with rfl | hs
    · exact hnull rfl
    · exact hnulls rfl s hs

theorem readProductions_eq_some {id : Nat} {cs : List Char} {m : Reading}
    (h : g.readProductions f id cs = some m) :
    ∃ production ∈ g.productionsOf id, ∃ trees, readSymbols f production cs = some (trees, m.2) ∧
      m.1 = .node (g.nameOf id) trees := by
  obtain ⟨⟨trees, rest⟩, hbest, rfl⟩ := Option.map_eq_some_iff.1 h
  obtain ⟨production, hmem, hread⟩ := List.mem_filterMap.1 (List.argmin_mem hbest)
  exact ⟨production, hmem, trees, hread, rfl⟩

theorem Progressive.readProductions (hf : g.Progressive f) :
    g.Progressive (g.readProductions f) := by
  intro id cs tree rest h
  obtain ⟨production, hmem, trees, hread, -⟩ := readProductions_eq_some h
  obtain ⟨hsuffix, hnull⟩ := readSymbols_progress hf hread
  exact ⟨hsuffix, fun heq => .nonTerminal hmem (hnull heq)⟩

theorem progressive_readTo (depth : Nat) : g.Progressive (g.readTo depth) := by
  induction depth with
  | zero =>
    intro id cs tree rest h
    simp [readTo] at h
  | succ depth ih => exact ih.readProductions

theorem progressive_longest : g.Progressive g.longest :=
  fun id cs => progressive_readTo _ id cs

/-! ### The recursive equation -/

/-- Readers that agree on all that a row of symbols can ask for match the row alike. -/
theorem readSymbols_congr (hf : g.Progressive f) {symbols : List Symbol} {cs : List Char}
    (hhere : ∀ before id after, symbols = before ++ .nonTerminal id :: after →
      (∀ s ∈ before, g.Nullable s) → f id cs = f' id cs)
    (hlater : ∀ id (rest : List Char), rest.length < cs.length → f id rest = f' id rest) :
    readSymbols f symbols cs = readSymbols f' symbols cs := by
  induction symbols generalizing cs with
  | nil => rfl
  | cons symbol symbols ih =>
    have hsymbol : readSymbol f symbol cs = readSymbol f' symbol cs := by
      cases symbol with
      | terminal terminal => rfl
      | nonTerminal id => exact hhere [] id symbols rfl (fun _ h => absurd h List.not_mem_nil)
    rw [readSymbols, readSymbols, ← hsymbol]
    cases hread : readSymbol f symbol cs with
    | none => rfl
    | some m =>
      obtain ⟨tree, rest⟩ := m
      obtain ⟨hsuffix, hnull⟩ := readSymbol_progress hf hread
      have htail : readSymbols f symbols rest = readSymbols f' symbols rest := by
        apply ih
        · intro before id after hsplit hbefore
          by_cases hlt : rest.length < cs.length
          · exact hlater id rest hlt
          · have heq : rest = cs := hsuffix.eq_of_length_le (Nat.not_lt.1 hlt)
            rw [heq]
            refine hhere (symbol :: before) id after (by rw [hsplit, List.cons_append]) ?_
            exact List.forall_mem_cons.2 ⟨hnull heq, hbefore⟩
        · exact fun id rest' h => hlater id rest' (h.trans_le hsuffix.length_le)
      simp only [htail]

theorem readProductions_congr (hf : g.Progressive f) {id : Nat} {cs : List Char}
    (hhere : ∀ b, g.Enters id b → f b cs = f' b cs)
    (hlater : ∀ b (rest : List Char), rest.length < cs.length → f b rest = f' b rest) :
    g.readProductions f id cs = g.readProductions f' id cs := by
  have hall : ∀ production ∈ g.productionsOf id,
      readSymbols f production cs = readSymbols f' production cs := by
    intro production hmem
    refine readSymbols_congr hf (fun before b after hsplit hbefore => ?_) hlater
    exact hhere b ⟨before, after, hsplit ▸ hmem, hbefore⟩
  rw [readProductions, readProductions, List.filterMap_congr hall]

theorem readProductions_eq_none {id : Nat} {cs : List Char} (h : ¬id < g.size) :
    g.readProductions f id cs = none := by
  rw [readProductions, productionsOf_eq_nil h]
  rfl

theorem readTo_eq_none {id depth : Nat} {cs : List Char} (h : ¬id < g.size) :
    g.readTo depth id cs = none := by
  cases depth with
  | zero => rfl
  | succ depth => exact readProductions_eq_none h

/-- The greatest depth below a non-terminal at a place: each character may cost a chain through all
non-terminals, and at the place itself the rank bounds the chain. -/
noncomputable def depthAt (g : Grammar) (id : Nat) (cs : List Char) : Nat :=
  g.size * cs.length + g.rank id

section NotLeftRecursive

variable (hg : ¬g.LeftRecursive)
include hg

theorem depthAt_lt {id : Nat} (hid : id < g.size) (cs : List Char) :
    g.depthAt id cs < g.size * (cs.length + 1) := by
  have := rank_lt_size hg hid
  rw [depthAt, Nat.mul_succ]
  omega

theorem depthAt_lt_of_enters {a b : Nat} (h : g.Enters a b) (hb : b < g.size) (cs : List Char) :
    g.depthAt b cs < g.depthAt a cs :=
  Nat.add_lt_add_left (rank_lt_of_enters hg h hb) _

theorem depthAt_lt_of_length_lt {a b : Nat} (hb : b < g.size) {rest cs : List Char}
    (h : rest.length < cs.length) : g.depthAt b rest < g.depthAt a cs := by
  calc
    g.depthAt b rest < g.size * (rest.length + 1) := depthAt_lt hg hb rest
    _ ≤ g.size * cs.length := Nat.mul_le_mul_left _ h
    _ ≤ g.depthAt a cs := Nat.le_add_right _ _

/-- Readers that agree on all places of smaller depth make the same of the productions. -/
theorem readProductions_congr_depth (hf : g.Progressive f) {id : Nat} {cs : List Char}
    (hin : ∀ b rest, b < g.size → g.depthAt b rest < g.depthAt id cs → f b rest = f' b rest)
    (hout : ∀ b rest, ¬b < g.size → f b rest = f' b rest) :
    g.readProductions f id cs = g.readProductions f' id cs := by
  apply readProductions_congr hf
  · intro b hb
    by_cases hlt : b < g.size
    · exact hin b cs hlt (depthAt_lt_of_enters hg hb hlt cs)
    · exact hout b cs hlt
  · intro b rest hrest
    by_cases hlt : b < g.size
    · exact hin b rest hlt (depthAt_lt_of_length_lt hg hlt hrest)
    · exact hout b rest hlt

/-- Beyond the depth of a place the recursion depth does not matter. -/
theorem readTo_eq_readTo {depth depth' id : Nat} {cs : List Char} (h : g.depthAt id cs < depth)
    (h' : g.depthAt id cs < depth') : g.readTo depth id cs = g.readTo depth' id cs := by
  induction depth generalizing depth' id cs with
  | zero => omega
  | succ depth ih =>
    cases depth' with
    | zero => omega
    | succ depth' =>
      apply readProductions_congr_depth hg (progressive_readTo depth)
      · intro b rest _ hlt
        exact ih (by omega) (by omega)
      · intro b rest hb
        rw [readTo_eq_none hb, readTo_eq_none hb]

theorem readTo_eq_longest {depth id : Nat} {cs : List Char} (h : g.depthAt id cs < depth) :
    g.readTo depth id cs = g.longest id cs := by
  by_cases hid : id < g.size
  · exact readTo_eq_readTo hg h (depthAt_lt hg hid cs)
  · rw [longest, readTo_eq_none hid, readTo_eq_none hid]

/-- The longest match is the best of the productions, with longest matches inside them. -/
theorem longest_eq (id : Nat) (cs : List Char) :
    g.longest id cs = g.readProductions g.longest id cs := by
  rw [← readTo_eq_longest hg (Nat.lt_succ_self (g.depthAt id cs))]
  apply readProductions_congr_depth hg (progressive_readTo _)
  · intro b rest _ hlt
    exact readTo_eq_longest hg hlt
  · intro b rest hb
    rw [readTo_eq_none hb, longest, readTo_eq_none hb]

end NotLeftRecursive

end Grammar

end PatternText
