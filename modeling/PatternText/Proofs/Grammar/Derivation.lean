import PatternText.Proofs.Grammar.Longest

/-! Grammars read without any preference. A non-terminal derives a text when one of its productions
can be split over it, each symbol at its own part: any production and any split will do. Whatever a
longest match takes is derived in this sense; the other way round fails in general, for a symbol that
takes its longest match leaves the others only what follows. -/

namespace PatternText

namespace Grammar

/-- The symbols take the text one after the other, `R` telling what the non-terminals can take. -/
inductive Splits (R : Nat → List Char → Prop) : List Symbol → List Char → Prop where
  | nil : Splits R [] []
  | epsilon {symbols : List Symbol} {cs : List Char} (tail : Splits R symbols cs) :
      Splits R (.terminal .epsilon :: symbols) cs
  | char {terminal : Terminal} {c : Char} {symbols : List Symbol} {cs : List Char}
      (accepts : terminal.accepts c = true) (tail : Splits R symbols cs) :
      Splits R (.terminal terminal :: symbols) (c :: cs)
  | nonTerminal {id : Nat} {symbols : List Symbol} {cs cs' : List Char} (head : R id cs)
      (tail : Splits R symbols cs') : Splits R (.nonTerminal id :: symbols) (cs ++ cs')

/-- The non-terminal derives the text in the context-free reading of the grammar. -/
inductive Derives (g : Grammar) : Nat → List Char → Prop where
  | production {id : Nat} {production : List Symbol} {cs : List Char}
      (mem : production ∈ g.productionsOf id) (splits : Splits (Derives g) production cs) :
      Derives g id cs

/-- What `R` lets a non-terminal take, one of the productions takes, with `R` for what is inside. -/
def Unfolds (g : Grammar) (R : Nat → List Char → Prop) : Prop :=
  ∀ id cs, R id cs → ∃ production ∈ g.productionsOf id, Splits R production cs

variable {g : Grammar} {R R' : Nat → List Char → Prop}

/-! ### Splitting -/

theorem Splits.mono {symbols : List Symbol} {cs : List Char} (h : Splits R symbols cs)
    (hsub : ∀ id part, part <:+: cs → R id part → R' id part) : Splits R' symbols cs := by
  induction h with
  | nil => exact .nil
  | epsilon _ ih => exact .epsilon (ih hsub)
  | char haccepts _ ih =>
    refine .char haccepts (ih fun id part hpart => hsub id part ?_)
    exact hpart.trans (List.suffix_cons _ _).isInfix
  | @nonTerminal id symbols cs cs' hhead _ ih =>
    refine .nonTerminal (hsub id cs (List.prefix_append cs cs').isInfix hhead) (ih ?_)
    exact fun id part hpart => hsub id part (hpart.trans (List.suffix_append cs cs').isInfix)

theorem splits_nil {cs : List Char} : Splits R [] cs ↔ cs = [] := by
  constructor
  · rintro ⟨⟩
    rfl
  · rintro rfl
    exact .nil

theorem splits_epsilon {symbols : List Symbol} {cs : List Char} :
    Splits R (.terminal .epsilon :: symbols) cs ↔ Splits R symbols cs := by
  refine ⟨fun h => ?_, .epsilon⟩
  cases h with
  | epsilon tail => exact tail
  | char accepts _ => cases accepts

theorem splits_oneOf {chars : List Char} {symbols : List Symbol} {cs : List Char} :
    Splits R (.terminal (.oneOf chars) :: symbols) cs ↔
      ∃ c rest, cs = c :: rest ∧ c ∈ chars ∧ Splits R symbols rest := by
  constructor
  · rintro (_ | _ | @⟨_, c, _, rest, accepts, tail⟩)
    exact ⟨c, rest, rfl, List.contains_iff_mem.1 accepts, tail⟩
  · rintro ⟨c, rest, rfl, hmem, tail⟩
    exact .char (List.contains_iff_mem.2 hmem) tail

theorem splits_noneOf {chars : List Char} {symbols : List Symbol} {cs : List Char} :
    Splits R (.terminal (.noneOf chars) :: symbols) cs ↔
      ∃ c rest, cs = c :: rest ∧ c ∉ chars ∧ Splits R symbols rest := by
  have haccepts (c : Char) : (Terminal.noneOf chars).accepts c = true ↔ c ∉ chars := by
    rw [Terminal.accepts, Bool.not_eq_true', ← Bool.not_eq_true, List.contains_iff_mem]
  constructor
  · rintro (_ | _ | @⟨_, c, _, rest, accepts, tail⟩)
    exact ⟨c, rest, rfl, (haccepts c).1 accepts, tail⟩
  · rintro ⟨c, rest, rfl, hmem, tail⟩
    exact .char ((haccepts c).2 hmem) tail

theorem splits_nonTerminal {id : Nat} {symbols : List Symbol} {cs : List Char} :
    Splits R (.nonTerminal id :: symbols) cs ↔
      ∃ part rest, cs = part ++ rest ∧ R id part ∧ Splits R symbols rest := by
  constructor
  · rintro (_ | _ | _ | @⟨_, _, part, rest, head, tail⟩)
    exact ⟨part, rest, rfl, head, tail⟩
  · rintro ⟨part, rest, rfl, head, tail⟩
    exact .nonTerminal head tail

theorem Derives.unfolds (g : Grammar) : g.Unfolds g.Derives := by
  rintro id cs ⟨mem, splits⟩
  exact ⟨_, mem, splits⟩

/-- Unfolding respects what every part of a text inherits from it. -/
theorem Unfolds.and {P : List Char → Prop} (hR : g.Unfolds R)
    (hP : ∀ part cs, part <:+: cs → P cs → P part) : g.Unfolds fun id cs => R id cs ∧ P cs := by
  rintro id cs ⟨h, hcs⟩
  obtain ⟨production, hmem, hsplits⟩ := hR id cs h
  exact ⟨production, hmem, hsplits.mono fun _ part hpart hpartR => ⟨hpartR, hP part cs hpart hcs⟩⟩

/-! ### Reading splits -/

/-- The non-terminal takes the text in front of some other text. -/
def Takes (f : Reader) (id : Nat) (cs : List Char) : Prop :=
  ∃ tree rest, f id (cs ++ rest) = some (tree, rest)

theorem splits_of_readSymbols {f : Reader} (hf : g.Progressive f) {symbols : List Symbol}
    {cs rest : List Char} {trees : List ParseTree}
    (h : readSymbols f symbols cs = some (trees, rest)) :
    ∃ taken, cs = taken ++ rest ∧ Splits (Takes f) symbols taken := by
  induction symbols generalizing cs trees with
  | nil =>
    simp only [readSymbols, Option.some.injEq, Prod.mk.injEq] at h
    exact ⟨[], h.2, .nil⟩
  | cons symbol symbols ih =>
    obtain ⟨tree, mid, trees', hsymbol, hsymbols, -⟩ := readSymbols_cons.1 h
    obtain ⟨taken, hmid, htail⟩ := ih hsymbols
    cases symbol with
    | nonTerminal id =>
      obtain ⟨⟨front, hfront⟩, -⟩ := hf id cs tree mid hsymbol
      refine ⟨front ++ taken, ?_, .nonTerminal ⟨tree, mid, ?_⟩ htail⟩
      · rw [← hfront, hmid, List.append_assoc]
      · rw [hfront]
        exact hsymbol
    | terminal terminal =>
      cases terminal with
      | epsilon =>
        simp only [readSymbol, readTerminal, Option.some.injEq, Prod.mk.injEq] at hsymbol
        exact ⟨taken, hsymbol.2.trans hmid, .epsilon htail⟩
      | oneOf _ | noneOf _ =>
        cases cs with
        | nil => simp [readSymbol, readTerminal] at hsymbol
        | cons c cs =>
          simp only [readSymbol, readTerminal, Option.ite_none_right_eq_some, Option.some.injEq,
            Prod.mk.injEq] at hsymbol
          obtain ⟨haccepts, -, rfl⟩ := hsymbol
          exact ⟨c :: taken, by rw [hmid, List.cons_append], .char haccepts htail⟩

theorem splits_of_readProductions {f : Reader} (hf : g.Progressive f) {id : Nat} {cs : List Char}
    {m : Reading} (h : g.readProductions f id cs = some m) :
    ∃ taken, cs = taken ++ m.2 ∧ ∃ production ∈ g.productionsOf id,
      Splits (Takes f) production taken := by
  obtain ⟨production, hmem, trees, hread, -⟩ := readProductions_eq_some h
  obtain ⟨taken, hcs, hsplits⟩ := splits_of_readSymbols hf hread
  exact ⟨taken, hcs, production, hmem, hsplits⟩

/-- Every match within the depth is a derivation. -/
theorem derives_of_readTo {depth id : Nat} {taken rest : List Char} {tree : ParseTree}
    (h : g.readTo depth id (taken ++ rest) = some (tree, rest)) : g.Derives id taken := by
  induction depth generalizing id taken rest tree with
  | zero => simp [readTo] at h
  | succ depth ih =>
    obtain ⟨taken', htaken, production, hmem, hsplits⟩ :=
      splits_of_readProductions (progressive_readTo depth) h
    obtain rfl := List.append_cancel_right htaken
    refine .production hmem (hsplits.mono ?_)
    rintro id part - ⟨tree, rest, hread⟩
    exact ih hread

theorem derives_of_longest {id : Nat} {taken rest : List Char} {tree : ParseTree}
    (h : g.longest id (taken ++ rest) = some (tree, rest)) : g.Derives id taken :=
  derives_of_readTo h

/-- The longest matches unfold like derivations. -/
theorem unfolds_takes_longest (hg : ¬g.LeftRecursive) : g.Unfolds (Takes g.longest) := by
  rintro id cs ⟨tree, rest, h⟩
  rw [longest_eq hg] at h
  obtain ⟨taken, htaken, hsplits⟩ := splits_of_readProductions progressive_longest h
  obtain rfl := List.append_cancel_right htaken
  exact hsplits

end Grammar

end PatternText
