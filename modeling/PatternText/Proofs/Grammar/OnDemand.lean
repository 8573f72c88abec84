import PatternText.Proofs.Grammar.Calls
import PatternText.Proofs.Grammar.Table

/-! Matching on demand. Instead of filling whole rows, a parse from the start symbol looks a match up
in one memory for all non-terminals and places, and computes and stores it where it is missing, also
when it is a failure. Whatever the memory holds already, as long as it is right, the matches are those
of the plain recursion; so they are those of the table, and parsing gives the same tree or the same
error by all three. -/

namespace PatternText

namespace Grammar

/-- What matches at a place, and the memory after that. -/
abbrev Demand (α : Type) := List Char → Found → Option (α × List Char) × Found

def demandSymbol (demand : Nat → Demand ParseTree) : Symbol → Demand ParseTree
  | .terminal terminal, cs, memo => (readTerminal terminal cs, memo)
  | .nonTerminal id, cs, memo => demand id cs memo

def demandSymbols (demand : Nat → Demand ParseTree) : List Symbol → Demand (List ParseTree)
  | [], cs, memo => (some ([], cs), memo)
  | symbol :: symbols, cs, memo =>
    match demandSymbol demand symbol cs memo with
    | (none, memo) => (none, memo)
    | (some (tree, rest), memo) =>
      let (trees, memo) := demandSymbols demand symbols rest memo
      (trees.map fun (trees, rest) => (tree :: trees, rest), memo)

/-- The matches of those productions that have one, in order. -/
def demandProductions (demand : Nat → Demand ParseTree) : List (List Symbol) → List Char → Found →
    List (List ParseTree × List Char) × Found
  | [], _, memo => ([], memo)
  | production :: productions, cs, memo =>
    let (found, memo) := demandSymbols demand production cs memo
    let (others, memo) := demandProductions demand productions cs memo
    (found.toList ++ others, memo)

/-- The match of a non-terminal, from the memory or by its productions. The depth bounds how many
non-terminals are entered inside one another. -/
def demandTo (g : Grammar) : Nat → Nat → Demand ParseTree
  | 0, _, _, memo => (none, memo)
  | depth + 1, id, cs, memo =>
    match memo[(id, cs.length)]? with
    | some known => (known, memo)
    | none =>
      let (found, memo) := demandProductions (g.demandTo depth) (g.productionsOf id) cs memo
      let best := (found.argmin fun m => m.2.length).map fun m => (.node (g.nameOf id) m.1, m.2)
      (best, memo.insert (id, cs.length) best)

variable {g : Grammar} {text : List Char} {demand : Nat → Demand ParseTree}

/-! Matching on demand is made of calls that always return. -/

theorem callSymbols_some (symbols : List Symbol) (cs : List Char) (memo : Found) :
    callSymbols (fun id cs memo => some (demand id cs memo)) symbols cs memo =
      some (demandSymbols demand symbols cs memo) := by
  induction symbols generalizing cs memo with
  | nil => rfl
  | cons symbol symbols ih =>
    have hsymbol : callSymbol (fun id cs memo => some (demand id cs memo)) symbol cs memo =
        some (demandSymbol demand symbol cs memo) := by
      cases symbol <;> rfl
    rw [callSymbols, demandSymbols, hsymbol]
    obtain ⟨_ | ⟨tree, rest⟩, memo'⟩ := demandSymbol demand symbol cs memo
    · rfl
    · dsimp only
      rw [ih, Option.map_some]

theorem callProductions_some (productions : List (List Symbol)) (cs : List Char) (memo : Found) :
    callProductions (fun id cs memo => some (demand id cs memo)) productions cs memo =
      some (demandProductions demand productions cs memo) := by
  induction productions generalizing memo with
  | nil => rfl
  | cons production productions ih =>
    rw [callProductions, demandProductions, callSymbols_some]
    dsimp only
    rw [ih, Option.map_some]

/-- `demand` finds the longest match of the non-terminal at the place and keeps the memory right. -/
def Meets (g : Grammar) (text : List Char) (demand : Nat → Demand ParseTree) (id : Nat)
    (cs : List Char) : Prop :=
  ∀ memo, g.FoundSound text memo →
    (demand id cs memo).1 = g.longest id cs ∧ g.FoundSound text (demand id cs memo).2

theorem Meets.answers {id : Nat} {cs : List Char} (h : Meets g text demand id cs) :
    g.Answers text (fun id cs memo => some (demand id cs memo)) id cs := by
  intro memo hmemo
  obtain ⟨hfound, hmemo'⟩ := h memo hmemo
  exact ⟨_, congrArg some (Prod.ext hfound rfl), hmemo'⟩

theorem demandProductions_spec {productions : List (List Symbol)} {cs : List Char}
    (hhere : ∀ before id after, before ++ .nonTerminal id :: after ∈ productions →
      (∀ s ∈ before, g.Nullable s) → Meets g text demand id cs)
    (hlater : ∀ id (rest : List Char), rest <:+ cs → rest.length < cs.length →
      Meets g text demand id rest)
    {memo : Found} (hmemo : g.FoundSound text memo) :
    (demandProductions demand productions cs memo).1 =
      productions.filterMap (readSymbols g.longest · cs) ∧
    g.FoundSound text (demandProductions demand productions cs memo).2 := by
  obtain ⟨memo', hfound, hmemo'⟩ := callProductions_spec
    (fun before id after hmem hbefore => (hhere before id after hmem hbefore).answers)
    (fun _ _ id rest _ hrest hlt => (hlater id rest hrest hlt).answers) hmemo
  rw [callProductions_some] at hfound
  rw [Option.some.inj hfound]
  exact ⟨rfl, hmemo'⟩

/-- Any right memory and any sufficient depth lead to the longest match. -/
theorem demandTo_spec (hg : ¬g.LeftRecursive) (depth id : Nat) {cs : List Char} (hcs : cs <:+ text)
    (hdepth : id < g.size → g.depthAt id cs < depth) : Meets g text (g.demandTo depth) id cs := by
  induction depth generalizing id cs with
  | zero =>
    intro memo hmemo
    have hid : ¬id < g.size := fun hid => absurd (hdepth hid) (Nat.not_lt_zero _)
    rw [demandTo, longest, readTo_eq_none hid]
    exact ⟨rfl, hmemo⟩
  | succ depth ih =>
    intro memo hmemo
    rw [demandTo]
    cases hknown : memo[(id, cs.length)]? with
    | some known => exact ⟨hmemo id cs known hcs hknown, hmemo⟩
    | none =>
      have hfound : (demandProductions (g.demandTo depth) (g.productionsOf id) cs memo).1 =
            (g.productionsOf id).filterMap (readSymbols g.longest · cs) ∧
          g.FoundSound text (demandProductions (g.demandTo depth) (g.productionsOf id) cs memo).2 := by
        by_cases hid : id < g.size
        · have hbound := hdepth hid
          apply demandProductions_spec _ _ hmemo
          · intro before b after hmem hbefore
            refine ih b hcs fun hb => ?_
            have := depthAt_lt_of_enters hg ⟨before, after, hmem, hbefore⟩ hb cs
            omega
          · intro b rest hrest hlt
            refine ih b (hrest.trans hcs) fun hb => ?_
            have := depthAt_lt_of_length_lt (a := id) hg hb hlt
            omega
        · rw [productionsOf_eq_nil hid]
          exact ⟨rfl, hmemo⟩
      generalize demandProductions (g.demandTo depth) (g.productionsOf id) cs memo = found at hfound
      obtain ⟨found, memo'⟩ := found
      obtain ⟨rfl, hmemo'⟩ := hfound
      have hbest : g.longest id cs = _ := longest_eq hg id cs
      rw [readProductions] at hbest
      simp only [← hbest]
      exact ⟨trivial, hmemo'.insert id hcs⟩

/-- Parsing on demand, with nothing known at first. -/
def parseOnDemand (g : Grammar) (text : String) : Except ParseError ParseTree :=
  outcomeOf text
    (g.demandTo (g.size * (text.toList.length + 1)) g.start text.toList ∅).1

/-- The memory of matches cannot be noticed. For a grammar without left recursion the longest match of
every non-terminal at every place of the text is given by the recursion over its productions; the table
holds exactly these matches, matching on demand finds them whatever right memory it starts from and
keeps the memory right, and both ways of parsing end as that recursion does. -/
theorem memory_invisible (hg : ¬g.LeftRecursive) (text : String) :
    (∀ id rest, g.longest id rest = g.readProductions g.longest id rest) ∧
    (∀ id rest, rest <:+ text.toList →
      (ParseTable.ofText g text.toList).lookup rest.length id =
        (g.longest id rest).map Reading.toMatch) ∧
    (∀ id rest memo depth, rest <:+ text.toList → g.FoundSound text.toList memo →
      g.size * (rest.length + 1) ≤ depth →
      (g.demandTo depth id rest memo).1 = g.longest id rest ∧
      g.FoundSound text.toList (g.demandTo depth id rest memo).2) ∧
    parse g text = outcomeOf text (g.longest g.start text.toList) ∧
    g.parseOnDemand text = outcomeOf text (g.longest g.start text.toList) := by
  have hdemand : ∀ id rest memo depth, rest <:+ text.toList → g.FoundSound text.toList memo →
      g.size * (rest.length + 1) ≤ depth →
      (g.demandTo depth id rest memo).1 = g.longest id rest ∧
      g.FoundSound text.toList (g.demandTo depth id rest memo).2 := by
    intro id rest memo depth hrest hmemo hdepth
    exact demandTo_spec hg depth id hrest
      (fun hid => (depthAt_lt hg hid rest).trans_le hdepth) memo hmemo
  refine ⟨longest_eq hg, fun id rest hrest => ?_, hdemand, parse_eq_outcomeOf hg text, ?_⟩
  · exact (ParseTable.holds_ofText hg text.toList).lookup_eq rest hrest
      (Nat.lt_succ_of_le hrest.length_le) id
  · rw [parseOnDemand, (hdemand g.start text.toList ∅ _ List.suffix_rfl
      (g.foundSound_empty _) (Nat.le_refl _)).1]

/-- Two productions with the same beginning: a row of `a` before `b` or `c`. -/
def sharedBeginning : Grammar := .ofRules [("S", "A b"), ("S", "A c"), ("A", "a A"), ("A", "")]

theorem sharedBeginning_memory_invisible :
    ¬sharedBeginning.LeftRecursive ∧ sharedBeginning.FoundSound "aac".toList ∅ ∧
    (ParseTable.ofText sharedBeginning "aac".toList).lookup 3 0 =
      (sharedBeginning.longest 0 "aac".toList).map Reading.toMatch ∧
    (sharedBeginning.demandTo 8 0 "aac".toList ∅).1 = sharedBeginning.longest 0 "aac".toList ∧
    parse sharedBeginning "aac" = sharedBeginning.parseOnDemand "aac" := by
  have hg : ¬sharedBeginning.LeftRecursive :=
    not_leftRecursive_of_isRankedBy (show sharedBeginning.isRankedBy [1] [1, 0] = true by decide +kernel)
  have hempty := foundSound_empty sharedBeginning "aac".toList
  obtain ⟨-, htable, hdemand, hparse, honDemand⟩ := memory_invisible hg "aac"
  refine ⟨hg, hempty, htable 0 _ List.suffix_rfl, ?_, hparse.trans honDemand.symm⟩
  exact (hdemand 0 _ ∅ 8 List.suffix_rfl hempty (by decide +kernel)).1

end Grammar

end PatternText
