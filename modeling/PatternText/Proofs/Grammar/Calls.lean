import PatternText.Proofs.Grammar.Longest
import Std.Data.HashMap

/-! Calls for matches. A parse that asks for matches one after the other keeps one memory of all that it
has found, for non-terminals and places. Symbols and productions pass the memory on from call to call,
and may be cut short by a call that does not return. If every call that they can make returns the
longest match and keeps the memory right, they return what the plain recursion says. -/

namespace PatternText

namespace Grammar

/-- The matches of non-terminals where so many characters remain, as far as they were asked for. -/
abbrev Found := Std.HashMap (Nat × Nat) (Option Reading)

/-- What matches at a place and the memory after that, if the call returns. -/
abbrev Call (α : Type) := List Char → Found → Option (Option (α × List Char) × Found)

def callSymbol (call : Nat → Call ParseTree) : Symbol → Call ParseTree
  | .terminal terminal, cs, memo => some (readTerminal terminal cs, memo)
  | .nonTerminal id, cs, memo => call id cs memo

def callSymbols (call : Nat → Call ParseTree) : List Symbol → Call (List ParseTree)
  | [], cs, memo => some (some ([], cs), memo)
  | symbol :: symbols, cs, memo =>
    match callSymbol call symbol cs memo with
    | none => none
    | some (none, memo) => some (none, memo)
    | some (some (tree, rest), memo) =>
      (callSymbols call symbols rest memo).map fun (trees, memo) =>
        (trees.map fun (trees, rest) => (tree :: trees, rest), memo)

/-- The matches of those productions that have one, in order. -/
def callProductions (call : Nat → Call ParseTree) : List (List Symbol) → List Char → Found →
    Option (List (List ParseTree × List Char) × Found)
  | [], _, memo => some ([], memo)
  | production :: productions, cs, memo =>
    match callSymbols call production cs memo with
    | none => none
    | some (found, memo) =>
      (callProductions call productions cs memo).map fun (others, memo) =>
        (found.toList ++ others, memo)

/-- What the memory holds about places of the text is right. -/
def FoundSound (g : Grammar) (text : List Char) (memo : Found) : Prop :=
  ∀ id rest known, rest <:+ text → memo[(id, rest.length)]? = some known → known = g.longest id rest

theorem foundSound_empty (g : Grammar) (text : List Char) : g.FoundSound text ∅ := by
  intro id rest known _ h
  simp at h

variable {g : Grammar} {text : List Char} {call : Nat → Call ParseTree}

theorem FoundSound.insert {memo : Found} (h : g.FoundSound text memo) (id : Nat) {cs : List Char}
    (hcs : cs <:+ text) : g.FoundSound text (memo.insert (id, cs.length) (g.longest id cs)) := by
  intro b rest known hrest hget
  rw [Std.HashMap.getElem?_insert] at hget
  split at hget
  next heq =>
    simp only [beq_iff_eq, Prod.mk.injEq] at heq
    have hsame : cs = rest := List.suffix_of_suffix_length_le hcs hrest heq.2.le |>.eq_of_length heq.2
    rw [← heq.1, ← hsame, ← Option.some.inj hget]
  next => exact h b rest known hrest hget

/-- What is returned is this value, with a memory that is right. -/
def Returns (g : Grammar) (text : List Char) {α : Type} (outcome : Option (α × Found)) (value : α) :
    Prop :=
  ∃ memo, outcome = some (value, memo) ∧ g.FoundSound text memo

/-- The call returns the longest match of the non-terminal at the place, whatever right memory it
starts from, and keeps the memory right. -/
def Answers (g : Grammar) (text : List Char) (call : Nat → Call ParseTree) (id : Nat)
    (cs : List Char) : Prop :=
  ∀ memo, g.FoundSound text memo → g.Returns text (call id cs memo) (g.longest id cs)

theorem callSymbols_spec {symbols : List Symbol} {cs : List Char}
    (hhere : ∀ before id after, symbols = before ++ .nonTerminal id :: after →
      (∀ s ∈ before, g.Nullable s) → g.Answers text call id cs)
    (hlater : ∀ id (rest : List Char), .nonTerminal id ∈ symbols → rest <:+ cs →
      rest.length < cs.length → g.Answers text call id rest)
    {memo : Found} (hmemo : g.FoundSound text memo) :
    g.Returns text (callSymbols call symbols cs memo) (readSymbols g.longest symbols cs) := by
  induction symbols generalizing cs memo with
  | nil => exact ⟨memo, rfl, hmemo⟩
  | cons symbol symbols ih =>
    have hsymbol : g.Returns text (callSymbol call symbol cs memo)
        (readSymbol g.longest symbol cs) := by
      cases symbol with
      | terminal terminal => exact ⟨memo, rfl, hmemo⟩
      | nonTerminal id =>
        exact hhere [] id symbols rfl (fun _ hs => absurd hs List.not_mem_nil) memo hmemo
    obtain ⟨memo', hcall, hmemo'⟩ := hsymbol
    rw [callSymbols, readSymbols, hcall]
    cases hread : readSymbol g.longest symbol cs with
    | none => exact ⟨memo', rfl, hmemo'⟩
    | some m =>
      obtain ⟨tree, rest⟩ := m
      obtain ⟨hsuffix, hnull⟩ := readSymbol_progress progressive_longest hread
      have htail : g.Returns text (callSymbols call symbols rest memo')
          (readSymbols g.longest symbols rest) := by
        refine ih (fun before id after hsplit hbefore => ?_) (fun id rest' hmem hrest' hlt => ?_) hmemo'
        · by_cases hlt : rest.length < cs.length
          · refine hlater id rest (List.mem_cons_of_mem _ ?_) hsuffix hlt
            rw [hsplit]
            exact List.mem_append_right _ List.mem_cons_self
          · have heq : rest = cs := hsuffix.eq_of_length_le (Nat.not_lt.1 hlt)
            rw [heq]
            refine hhere (symbol :: before) id after (by rw [hsplit, List.cons_append]) ?_
            exact List.forall_mem_cons.2 ⟨hnull heq, hbefore⟩
        · exact hlater id rest' (List.mem_cons_of_mem _ hmem) (hrest'.trans hsuffix)
            (hlt.trans_le hsuffix.length_le)
      obtain ⟨memo'', htrees, hmemo''⟩ := htail
      exact ⟨memo'', by dsimp only; rw [htrees, Option.map_some], hmemo''⟩

theorem callProductions_spec {productions : List (List Symbol)} {cs : List Char}
    (hhere : ∀ before id after, before ++ .nonTerminal id :: after ∈ productions →
      (∀ s ∈ before, g.Nullable s) → g.Answers text call id cs)
    (hlater : ∀ production ∈ productions, ∀ id (rest : List Char), .nonTerminal id ∈ production →
      rest <:+ cs → rest.length < cs.length → g.Answers text call id rest)
    {memo : Found} (hmemo : g.FoundSound text memo) :
    g.Returns text (callProductions call productions cs memo)
      (productions.filterMap (readSymbols g.longest · cs)) := by
  induction productions generalizing memo with
  | nil => exact ⟨memo, rfl, hmemo⟩
  | cons production productions ih =>
    obtain ⟨memo', hfound, hmemo'⟩ := callSymbols_spec
      (fun before id after hsplit => hhere before id after (hsplit ▸ List.mem_cons_self))
      (hlater production List.mem_cons_self) hmemo
    obtain ⟨memo'', hothers, hmemo''⟩ := ih
      (fun before id after hmem => hhere before id after (List.mem_cons_of_mem _ hmem))
      (fun production' hmem => hlater production' (List.mem_cons_of_mem _ hmem)) hmemo'
    refine ⟨memo'', ?_, hmemo''⟩
    rw [callProductions, hfound]
    dsimp only
    rw [hothers, Option.map_some, List.filterMap_cons]
    cases readSymbols g.longest production cs <;> rfl

end Grammar

end PatternText
