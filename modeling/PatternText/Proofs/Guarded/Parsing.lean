import PatternText.Proofs.Grammar.Table
import PatternText.Proofs.Guarded.Slices
import PatternText.Proofs.Guarded.Stop

/-! Parsing by byte offsets. A place is the number of bytes before it, a tree comes with the part of the
text that it took, and the next place is as many bytes further on as this part has. Every part is cut out
of the text at two such places, and all of them fall between characters, so parsing commits no breach; a
memory of what matched where changes nothing, and the tree or the error is that of plain parsing. -/

namespace PatternText

open String (utf8Len)

namespace Guarded

/-- A tree, and the text it took. -/
abbrev Piece := ParseTree × List Char

/-- What non-terminals match after so many bytes, as far as they were asked for. -/
abbrev Pieces := Std.HashMap (Nat × Nat) (Option Piece)

def matchTerminal (text : List Char) (terminal : Terminal) (pos : Nat) : Guarded (Option Piece) :=
  match terminal with
  | .epsilon => do
    let taken ← require (.offset pos) (slice? text pos pos)
    .ok (some (.leaf none, taken))
  | terminal => do
    match ← require (.offset pos) (sliceFrom? text pos) with
    | [] => .ok none
    | c :: _ =>
      if terminal.accepts c then do
        let stop := pos + c.utf8Size
        let taken ← require (.offset stop) (slice? text pos stop)
        .ok (some (.leaf (some c), taken))
      else .ok none

variable (text : List Char) (consume : Nat → Nat → Pieces → Guarded (Option Piece × Pieces))

def matchSymbol (symbol : Symbol) (pos : Nat) (memo : Pieces) : Guarded (Option Piece × Pieces) :=
  match symbol with
  | .terminal terminal => (matchTerminal text terminal pos).map (·, memo)
  | .nonTerminal id => consume id pos memo

/-- The trees of symbols one after the other, and the place after them. -/
def matchSymbols : List Symbol → Nat → Pieces → Guarded (Option (List ParseTree × Nat) × Pieces)
  | [], pos, memo => .ok (some ([], pos), memo)
  | symbol :: symbols, pos, memo => do
    match ← matchSymbol text consume symbol pos memo with
    | (none, memo) => .ok (none, memo)
    | (some (tree, taken), memo) =>
      let (found, memo) ← matchSymbols symbols (pos + utf8Len taken) memo
      .ok (found.map fun (trees, stop) => (tree :: trees, stop), memo)

/-- The matches of those productions that have one, each with the text it took. -/
def matchProductions (pos : Nat) :
    List (List Symbol) → Pieces → Guarded (List (List ParseTree × List Char) × Pieces)
  | [], memo => .ok ([], memo)
  | production :: productions, memo => do
    match ← matchSymbols text consume production pos memo with
    | (none, memo) => matchProductions pos productions memo
    | (some (trees, stop), memo) =>
      let taken ← require (.offset stop) (slice? text pos stop)
      let (others, memo) ← matchProductions pos productions memo
      .ok ((trees, taken) :: others, memo)

/-- The match of a non-terminal, from the memory or the first longest of its productions. The depth
bounds how many non-terminals are entered inside one another. -/
def matchTo (g : Grammar) (text : List Char) :
    Nat → Nat → Nat → Pieces → Guarded (Option Piece × Pieces)
  | 0, _, _, memo => .ok (none, memo)
  | depth + 1, id, pos, memo =>
    match memo[(id, pos)]? with
    | some known => .ok (known, memo)
    | none => do
      let nonTerminal ← require (.nonTerminal id) g.nonTerminals[id]?
      let (found, memo) ← matchProductions text (matchTo g text depth) pos nonTerminal.productions memo
      let best := (found.argmax fun m => utf8Len m.2).map fun m => (.node nonTerminal.name m.1, m.2)
      .ok (best, memo.insert (id, pos) best)

/-- The text is not taken as a whole, only so many bytes. -/
def refuse (text : List Char) (taken : Nat) : Guarded (Except ParseError ParseTree) := do
  let consumed ← require (.offset taken) (sliceTo? text taken)
  let remainder ← require (.offset taken) (sliceFrom? text taken)
  .ok (.error ⟨String.ofList consumed, String.ofList remainder⟩)

/-- The tree of a text by the start symbol of the grammar, if it takes the whole text. -/
def parse (g : Grammar) (text : String) : Guarded (Except ParseError ParseTree) := do
  let cs := text.toList
  let (found, _) ← matchTo g cs (g.size * (cs.length + 1)) g.start 0 ∅
  match found with
  | some (tree, taken) =>
    if utf8Len taken = utf8Len cs then .ok (.ok tree) else refuse cs (utf8Len taken)
  | none => refuse cs 0

end Guarded

/-! ### Parts of the text -/

/-- The text that was taken where `rest` remains of `cs`. -/
def takenOf (cs rest : List Char) : List Char := cs.take (cs.length - rest.length)

theorem takenOf_append (taken rest : List Char) : takenOf (taken ++ rest) rest = taken := by
  rw [takenOf, List.length_append, Nat.add_sub_cancel, List.take_left]

/-- A match with the text it took. -/
def pieceOf (cs : List Char) (m : Reading) : Guarded.Piece := (m.1, takenOf cs m.2)

theorem guarded_matchTerminal (before cs : List Char) (terminal : Terminal) :
    Guarded.matchTerminal (before ++ cs) terminal (utf8Len before) =
      .ok ((Grammar.readTerminal terminal cs).map (pieceOf cs)) := by
  cases terminal with
  | epsilon =>
    have hslice : slice? (before ++ cs) (utf8Len before) (utf8Len before) = some [] :=
      slice?_append before [] cs
    rw [Guarded.matchTerminal, require_some hslice, Grammar.readTerminal, Option.map_some, pieceOf,
      show takenOf cs cs = [] from takenOf_append [] cs]
    rfl
  | oneOf _ | noneOf _ =>
    unfold Guarded.matchTerminal
    dsimp only
    rw [require_some (sliceFrom?_append before cs)]
    cases cs with
    | nil => rfl
    | cons c cs =>
      have hslice : slice? (before ++ c :: cs) (utf8Len before) (utf8Len before + c.utf8Size) =
          some [c] := by
        have h := slice?_append before [c] cs
        rwa [String.utf8Len_cons, String.utf8Len_nil, Nat.zero_add] at h
      simp only [Grammar.readTerminal, bind, Except.bind]
      split
      next =>
        rw [require_some hslice, Option.map_some, pieceOf,
          show takenOf (c :: cs) cs = [c] from takenOf_append [c] cs]
      next => rfl

/-! ### The longest match by bytes -/

/-- The first of the longest does not depend on how lengths are measured. -/
theorem argmax_map_eq {α β : Type} {f : α → β} {v : β → Nat} {w : α → Nat} {l : List α}
    (h : ∀ a ∈ l, ∀ b ∈ l, v (f a) < v (f b) ↔ w b < w a) :
    (l.map f).argmax v = (l.argmin w).map f := by
  induction l using List.reverseRecOn with
  | nil => rfl
  | append_singleton l a ih =>
    have hl := ih fun b hb c hc => h b (List.mem_append_left _ hb) c (List.mem_append_left _ hc)
    rw [List.map_append, List.map_singleton, List.argmax_concat, hl, List.argmin_concat]
    cases hmin : l.argmin w with
    | none => rfl
    | some b =>
      have hlt := h b (List.mem_append_left _ (List.argmin_mem hmin)) a
        (List.mem_append_right _ List.mem_cons_self)
      simp only [Option.map_some, hlt]
      split <;> rfl

namespace Grammar

/-- What the memory holds about places of the text is right. -/
def PiecesSound (g : Grammar) (text : List Char) (memo : Guarded.Pieces) : Prop :=
  ∀ id before rest known, text = before ++ rest → memo[(id, utf8Len before)]? = some known →
    known = (g.longest id rest).map (pieceOf rest)

theorem piecesSound_empty (g : Grammar) (text : List Char) : g.PiecesSound text ∅ := by
  intro id before rest known _ h
  simp at h

variable {g : Grammar} {text : List Char}
  {consume : Nat → Nat → Guarded.Pieces → Guarded (Option Guarded.Piece × Guarded.Pieces)}

theorem PiecesSound.insert {memo : Guarded.Pieces} (h : g.PiecesSound text memo) (id : Nat)
    {before rest : List Char} (htext : text = before ++ rest) :
    g.PiecesSound text
      (memo.insert (id, utf8Len before) ((g.longest id rest).map (pieceOf rest))) := by
  intro b before' rest' known htext' hget
  rw [Std.HashMap.getElem?_insert] at hget
  split at hget
  next heq =>
    simp only [beq_iff_eq, Prod.mk.injEq] at heq
    obtain ⟨-, rfl⟩ := eq_of_append_eq_of_utf8Len_eq (htext.symm.trans htext') heq.2
    rw [← heq.1, ← Option.some.inj hget]
  next => exact h b before' rest' known htext' hget

/-- The longest match of the non-terminal is found behind `before`, and the memory stays right. -/
def Finds (g : Grammar) (text : List Char)
    (consume : Nat → Nat → Guarded.Pieces → Guarded (Option Guarded.Piece × Guarded.Pieces)) (id : Nat)
    (before rest : List Char) : Prop :=
  ∀ memo, g.PiecesSound text memo → ∃ memo', g.PiecesSound text memo' ∧
    consume id (utf8Len before) memo = .ok ((g.longest id rest).map (pieceOf rest), memo')

theorem guarded_matchSymbols {symbols : List Symbol} {before cs : List Char}
    (htext : text = before ++ cs) (hsize : ∀ b, .nonTerminal b ∈ symbols → b < g.size)
    (hhere : ∀ front id after, symbols = front ++ .nonTerminal id :: after →
      (∀ s ∈ front, g.Nullable s) → Finds g text consume id before cs)
    (hlater : ∀ id < g.size, ∀ before' rest, text = before' ++ rest → rest.length < cs.length →
      Finds g text consume id before' rest)
    {memo : Guarded.Pieces} (hmemo : g.PiecesSound text memo) :
    ∃ memo', g.PiecesSound text memo' ∧
      Guarded.matchSymbols text consume symbols (utf8Len before) memo =
        .ok ((readSymbols g.longest symbols cs).map
          fun m => (m.1, utf8Len before + utf8Len (takenOf cs m.2)), memo') := by
  induction symbols generalizing before cs memo with
  | nil =>
    refine ⟨memo, hmemo, ?_⟩
    rw [Guarded.matchSymbols, readSymbols, Option.map_some,
      show takenOf cs cs = [] from takenOf_append [] cs, String.utf8Len_nil, Nat.add_zero]
  | cons symbol symbols ih =>
    have hsymbol : ∃ memo', g.PiecesSound text memo' ∧
        Guarded.matchSymbol text consume symbol (utf8Len before) memo =
          .ok ((readSymbol g.longest symbol cs).map (pieceOf cs), memo') := by
      cases symbol with
      | terminal terminal =>
        refine ⟨memo, hmemo, ?_⟩
        rw [Guarded.matchSymbol, htext, guarded_matchTerminal]
        rfl
      | nonTerminal id =>
        exact hhere [] id symbols rfl (fun _ hs => absurd hs List.not_mem_nil) memo hmemo
    obtain ⟨memo', hmemo', hsymbol⟩ := hsymbol
    rw [Guarded.matchSymbols, hsymbol, readSymbols]
    cases hread : readSymbol g.longest symbol cs with
    | none => exact ⟨memo', hmemo', rfl⟩
    | some m =>
      obtain ⟨tree, rest⟩ := m
      obtain ⟨⟨taken, rfl⟩, hnull⟩ := readSymbol_progress progressive_longest hread
      have htext' : text = (before ++ taken) ++ rest := by rw [htext, List.append_assoc]
      obtain ⟨memo'', hmemo'', htail⟩ := ih htext'
        (fun b hb => hsize b (List.mem_cons_of_mem _ hb))
        (fun front id after hsplit hfront => by
          have hid : id < g.size := hsize id (by rw [hsplit]; simp)
          cases taken with
          | nil =>
            rw [List.append_nil]
            refine hhere (symbol :: front) id after (by rw [hsplit, List.cons_append]) ?_
            exact List.forall_mem_cons.2 ⟨hnull rfl, hfront⟩
          | cons c taken =>
            refine hlater id hid _ rest htext' ?_
            rw [List.cons_append, List.length_cons, List.length_append]
            omega)
        (fun id hid before' rest' hbefore hlt => hlater id hid before' rest' hbefore
          (hlt.trans_le (by simp)))
        hmemo'
      refine ⟨memo'', hmemo'', ?_⟩
      simp only [Option.map_some, pieceOf, takenOf_append, bind, Except.bind]
      rw [← String.utf8Len_append, htail]
      cases hrest : readSymbols g.longest symbols rest with
      | none => rfl
      | some m =>
        obtain ⟨trees, rest'⟩ := m
        obtain ⟨⟨taken', rfl⟩, -⟩ := readSymbols_progress progressive_longest hrest
        simp only [Option.map_some]
        rw [takenOf_append, ← List.append_assoc, takenOf_append, String.utf8Len_append,
          String.utf8Len_append, Nat.add_assoc]

/-- The matches of productions, with the text each of them took. -/
def candidates (g : Grammar) (productions : List (List Symbol)) (cs : List Char) :
    List (List ParseTree × List Char) :=
  (productions.filterMap (readSymbols g.longest · cs)).map fun m => (m.1, takenOf cs m.2)

theorem guarded_matchProductions {productions : List (List Symbol)} {before cs : List Char}
    (htext : text = before ++ cs)
    (hsize : ∀ production ∈ productions, ∀ b, .nonTerminal b ∈ production → b < g.size)
    (hhere : ∀ front id after, front ++ .nonTerminal id :: after ∈ productions →
      (∀ s ∈ front, g.Nullable s) → Finds g text consume id before cs)
    (hlater : ∀ id < g.size, ∀ before' rest, text = before' ++ rest → rest.length < cs.length →
      Finds g text consume id before' rest)
    {memo : Guarded.Pieces} (hmemo : g.PiecesSound text memo) :
    ∃ memo', g.PiecesSound text memo' ∧
      Guarded.matchProductions text consume (utf8Len before) productions memo =
        .ok (g.candidates productions cs, memo') := by
  induction productions generalizing memo with
  | nil => exact ⟨memo, hmemo, rfl⟩
  | cons production productions ih =>
    obtain ⟨hproduction, hproductions⟩ := List.forall_mem_cons.1 hsize
    obtain ⟨memo', hmemo', hfound⟩ := guarded_matchSymbols htext hproduction
      (fun front id after hsplit => hhere front id after (hsplit ▸ List.mem_cons_self)) hlater hmemo
    obtain ⟨memo'', hmemo'', hothers⟩ := ih hproductions
      (fun front id after hmem => hhere front id after (List.mem_cons_of_mem _ hmem)) hmemo'
    refine ⟨memo'', hmemo'', ?_⟩
    rw [Guarded.matchProductions, hfound, candidates]
    cases hread : readSymbols g.longest production cs with
    | none =>
      rw [List.filterMap_cons, hread]
      exact hothers
    | some m =>
      obtain ⟨trees, rest⟩ := m
      obtain ⟨⟨taken, rfl⟩, -⟩ := readSymbols_progress progressive_longest hread
      have hslice : slice? text (utf8Len before) (utf8Len before + utf8Len taken) = some taken := by
        rw [htext, slice?_append]
      rw [List.filterMap_cons, hread, List.map_cons]
      simp only [Option.map_some, takenOf_append, bind, Except.bind]
      rw [require_some hslice]
      dsimp only
      rw [hothers]
      rfl

/-- The production with the most bytes is the one that leaves the fewest characters. -/
theorem argmax_candidates (id : Nat) (cs : List Char) :
    ((g.candidates (g.productionsOf id) cs).argmax fun m => utf8Len m.2).map
        (fun m => (.node (g.nameOf id) m.1, m.2)) =
      (g.readProductions g.longest id cs).map (pieceOf cs) := by
  have hsuffix : ∀ m ∈ (g.productionsOf id).filterMap (readSymbols g.longest · cs), m.2 <:+ cs := by
    intro m hm
    obtain ⟨production, -, hread⟩ := List.mem_filterMap.1 hm
    exact (readSymbols_progress progressive_longest hread).1
  have hbest := argmax_map_eq (f := fun m : List ParseTree × List Char => (m.1, takenOf cs m.2))
    (v := fun m => utf8Len m.2) (w := fun m => m.2.length)
    (l := (g.productionsOf id).filterMap (readSymbols g.longest · cs)) (by
      intro a ha b hb
      obtain ⟨taken, htaken⟩ := hsuffix a ha
      obtain ⟨taken', htaken'⟩ := hsuffix b hb
      have hlt := utf8Len_lt_iff (htaken.trans htaken'.symm)
      rwa [← takenOf_append taken a.2, htaken, ← takenOf_append taken' b.2, htaken'] at hlt)
  rw [candidates, hbest, readProductions, Option.map_map, Option.map_map]
  rfl

/-- Every part that is cut out of the text is there, and the match found is the longest one. -/
theorem guarded_matchTo (hg : ¬g.LeftRecursive) (hclosed : g.Closed) (depth : Nat) {id : Nat}
    (hid : id < g.size) {before cs : List Char} (htext : text = before ++ cs)
    (hdepth : g.depthAt id cs < depth) : Finds g text (Guarded.matchTo g text depth) id before cs := by
  induction depth generalizing id before cs with
  | zero => exact absurd hdepth (Nat.not_lt_zero _)
  | succ depth ih =>
    intro memo hmemo
    rw [Guarded.matchTo]
    cases hknown : memo[(id, utf8Len before)]? with
    | some known => exact ⟨memo, hmemo, by rw [hmemo id before cs known htext hknown]⟩
    | none =>
      have hget : g.nonTerminals[id]? = some g.nonTerminals[id] := Array.getElem?_eq_getElem hid
      have hproductions : g.nonTerminals[id].productions = g.productionsOf id := by
        rw [productionsOf, hget]
        rfl
      have hname : g.nonTerminals[id].name = g.nameOf id := by
        rw [nameOf, hget]
        rfl
      obtain ⟨memo', hmemo', hfound⟩ := guarded_matchProductions htext (hclosed id)
        (fun front b after hmem hfront => by
          have hb : b < g.size := hclosed id _ hmem b (by simp)
          have := depthAt_lt_of_enters hg ⟨front, after, hmem, hfront⟩ hb cs
          exact ih hb htext (by omega))
        (fun b hb before' rest hbefore hlt => by
          have := depthAt_lt_of_length_lt (a := id) hg hb hlt
          exact ih hb hbefore (by omega))
        hmemo
      have hbest := (argmax_candidates (g := g) id cs).trans
        (congrArg (Option.map (pieceOf cs)) (longest_eq hg id cs).symm)
      refine ⟨_, hmemo'.insert id htext, ?_⟩
      dsimp only
      rw [require_some hget]
      simp only [bind, Except.bind, hproductions, hname]
      rw [hfound]
      dsimp only
      rw [hbest]

end Grammar

theorem guarded_refuse (taken rest : List Char) :
    Guarded.refuse (taken ++ rest) (utf8Len taken) =
      .ok (.error ⟨String.ofList taken, String.ofList rest⟩) := by
  rw [Guarded.refuse, require_some (sliceTo?_append taken rest),
    require_some (sliceFrom?_append taken rest)]
  rfl

/-- Parsing by byte offsets commits no breach and ends as plain parsing does. -/
theorem guarded_parse {g : Grammar} (hg : ¬g.LeftRecursive) (hclosed : g.Closed)
    (hstart : g.start < g.size) (text : String) : Guarded.parse g text = .ok (parse g text) := by
  obtain ⟨memo, -, hfound⟩ := Grammar.guarded_matchTo hg hclosed
    (g.size * (text.toList.length + 1)) hstart (List.nil_append text.toList).symm
    (Grammar.depthAt_lt hg hstart _) ∅ (g.piecesSound_empty _)
  rw [Guarded.parse, parse_eq_outcomeOf hg]
  dsimp only
  rw [← String.utf8Len_nil, hfound]
  cases hread : g.longest g.start text.toList with
  | none =>
    have hrefuse := guarded_refuse [] text.toList
    rw [String.ofList_toList] at hrefuse
    exact hrefuse
  | some m =>
    obtain ⟨tree, rest⟩ := m
    obtain ⟨⟨taken, htext⟩, -⟩ := Grammar.progressive_longest _ _ _ _ hread
    have htaken : takenOf text.toList rest = taken := by rw [← htext, takenOf_append]
    simp only [Option.map_some, pieceOf, htaken, bind, Except.bind]
    cases rest with
    | nil =>
      rw [List.append_nil] at htext
      rw [htext, if_pos rfl]
      rfl
    | cons c rest =>
      have hne : utf8Len taken ≠ utf8Len text.toList := by
        have hpos := c.utf8Size_pos
        rw [← htext, String.utf8Len_append, String.utf8Len_cons]
        omega
      have houtcome : outcomeOf text (some (tree, c :: rest)) =
          .error ⟨String.ofList (takenOf text.toList (c :: rest)), String.ofList (c :: rest)⟩ := rfl
      rw [if_neg hne, houtcome, htaken, ← htext, guarded_refuse]

end PatternText
