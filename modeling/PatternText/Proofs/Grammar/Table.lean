import PatternText.Proofs.Grammar.Longest

/-! The table of matches. Every entry is the longest match that the plain recursion finds for its
non-terminal at its place. While a row is being filled its entries are settled in whatever order the
productions ask for them; what is known of the row so far is right at every moment, and settling an
entry keeps what was known. -/

namespace PatternText

/-- The match as the table records it: the place after it by the number of characters that remain. -/
def Reading.toMatch (r : Reading) : Match := ⟨r.1, r.2.length⟩

namespace ParseTable

/-- The table belongs to the text `cs`, and its rows hold the longest matches at the last `count`
places. -/
structure Holds (g : Grammar) (t : ParseTable) (cs : List Char) (count : Nat) : Prop where
  chars_eq : t.chars.toList = cs.reverse
  size_rows : t.rows.size = count
  lookup_eq : ∀ rest, rest <:+ cs → rest.length < count → ∀ id,
    t.lookup rest.length id = (g.longest id rest).map Reading.toMatch

/-- What is known of a row is right. -/
structure Sound (g : Grammar) (cs : List Char) (memo : Memo) : Prop where
  size_eq : memo.size = g.size
  known : ∀ id m, memo.getD id none = some m → m = (g.longest id cs).map Reading.toMatch

/-- Whether the row has an entry for the non-terminal. -/
def Knows (memo : Memo) (id : Nat) : Prop := (memo.getD id none).isSome

/-- A later state of the same row. -/
structure Grows (g : Grammar) (cs : List Char) (memo memo' : Memo) : Prop where
  sound : Sound g cs memo'
  keeps : ∀ id, Knows memo id → Knows memo' id

/-- `here` finds the longest match of the non-terminal, whatever is known of the row. -/
def Settles (g : Grammar) (cs : List Char) (here : Nat → Memo → Option Match × Memo) (id : Nat) :
    Prop :=
  ∀ memo, Sound g cs memo →
    (here id memo).1 = (g.longest id cs).map Reading.toMatch ∧ Grows g cs memo (here id memo).2

variable {g : Grammar} {t : ParseTable} {cs : List Char} {here : Nat → Memo → Option Match × Memo}

theorem Grows.refl {memo : Memo} (h : Sound g cs memo) : Grows g cs memo memo := ⟨h, fun _ => id⟩

theorem Grows.trans {memo memo' memo'' : Memo} (h : Grows g cs memo memo')
    (h' : Grows g cs memo' memo'') : Grows g cs memo memo'' :=
  ⟨h'.sound, fun id hid => h'.keeps id (h.keeps id hid)⟩

theorem Holds.size_chars {count : Nat} (h : Holds g t cs count) : t.chars.size = cs.length := by
  rw [← Array.length_toList, h.chars_eq, List.length_reverse]

theorem Holds.charAt_eq {count : Nat} (h : Holds g t cs count) {rest : List Char}
    (hrest : rest <:+ cs) : t.charAt rest.length = rest.head? := by
  cases rest with
  | nil => rfl
  | cons c rest =>
    obtain ⟨front, rfl⟩ := hrest
    rw [charAt, List.length_cons, if_neg (Nat.succ_ne_zero _), Nat.add_sub_cancel,
      ← Array.getElem?_toList, h.chars_eq]
    simp

theorem Holds.matchTerminal_eq {count : Nat} (h : Holds g t cs count) (terminal : Terminal)
    {rest : List Char} (hrest : rest <:+ cs) :
    t.matchTerminal terminal rest.length =
      (Grammar.readTerminal terminal rest).map Reading.toMatch := by
  cases terminal with
  | epsilon => rfl
  | oneOf _ | noneOf _ =>
    simp only [matchTerminal, h.charAt_eq hrest]
    cases rest with
    | nil => rfl
    | cons c rest =>
      simp only [List.head?_cons, Grammar.readTerminal, List.length_cons, Nat.add_sub_cancel]
      split <;> rfl

/-- A non-terminal is settled by `here` at the current place and looked up at the places after it. -/
theorem Holds.found_spec (h : Holds g t cs cs.length) {rest : List Char} (hrest : rest <:+ cs)
    {id : Nat} (hhere : rest = cs → Settles g cs here id) {memo : Memo} (hmemo : Sound g cs memo) :
    (if rest.length = t.chars.size then here id memo else (t.lookup rest.length id, memo)).1 =
      (g.longest id rest).map Reading.toMatch ∧
    Grows g cs memo
      (if rest.length = t.chars.size then here id memo else (t.lookup rest.length id, memo)).2 := by
  rw [h.size_chars]
  by_cases hlen : rest.length = cs.length
  · have heq : rest = cs := hrest.eq_of_length hlen
    rw [if_pos hlen, heq]
    exact hhere heq memo hmemo
  · have hlt : rest.length < cs.length := Nat.lt_of_le_of_ne hrest.length_le hlen
    rw [if_neg hlen]
    exact ⟨h.lookup_eq rest hrest hlt id, .refl hmemo⟩

/-- A row of symbols yields the trees of their longest matches, if `here` settles the non-terminals
that can be entered at the current place. -/
theorem Holds.matchSymbols_spec (h : Holds g t cs cs.length) (symbols : List Symbol)
    {rest : List Char} (hrest : rest <:+ cs)
    (hhere : rest = cs → ∀ before id after, symbols = before ++ .nonTerminal id :: after →
      (∀ s ∈ before, g.Nullable s) → Settles g cs here id)
    (done : List ParseTree) {memo : Memo} (hmemo : Sound g cs memo) :
    (t.matchSymbols here symbols rest.length done memo).1 =
      (Grammar.readSymbols g.longest symbols rest).map
        (fun m => (done.reverse ++ m.1, m.2.length)) ∧
    Grows g cs memo (t.matchSymbols here symbols rest.length done memo).2 := by
  induction symbols generalizing rest done memo with
  | nil =>
    rw [matchSymbols]
    exact ⟨by simp [Grammar.readSymbols], .refl hmemo⟩
  | cons symbol symbols ih =>
    -- After a match of the first symbol the others go on at a place where the same is true.
    have hnext : ∀ tree after memo', Grammar.readSymbol g.longest symbol rest = some (tree, after) →
        Sound g cs memo' →
        (t.matchSymbols here symbols after.length (tree :: done) memo').1 =
          (Grammar.readSymbols g.longest (symbol :: symbols) rest).map
            (fun m => (done.reverse ++ m.1, m.2.length)) ∧
        Grows g cs memo' (t.matchSymbols here symbols after.length (tree :: done) memo').2 := by
      intro tree after memo' hread hmemo'
      obtain ⟨hafter, hnull⟩ := Grammar.readSymbol_progress Grammar.progressive_longest hread
      have := ih (hafter.trans hrest) (fun heq before id after' hsplit hbefore => ?_) (tree :: done)
        hmemo'
      · refine ⟨?_, this.2⟩
        rw [this.1, Grammar.readSymbols, hread]
        simp [Function.comp_def]
      · subst heq
        have heq' : rest = after := hrest.eq_of_length_le hafter.length_le
        refine hhere heq' (symbol :: before) id after' (by rw [hsplit, List.cons_append]) ?_
        exact List.forall_mem_cons.2 ⟨hnull heq'.symm, hbefore⟩
    cases symbol with
    | terminal terminal =>
      rw [matchSymbols, h.matchTerminal_eq terminal hrest]
      cases hread : Grammar.readTerminal terminal rest with
      | none =>
        rw [Grammar.readSymbols, Grammar.readSymbol, hread]
        exact ⟨rfl, .refl hmemo⟩
      | some m => exact hnext m.1 m.2 memo hread hmemo
    | nonTerminal id =>
      have hentered (heq : rest = cs) : Settles g cs here id :=
        hhere heq [] id symbols rfl fun _ hs => absurd hs List.not_mem_nil
      have hfound := h.found_spec hrest hentered hmemo
      rw [matchSymbols]
      generalize (if rest.length = t.chars.size then here id memo
        else (t.lookup rest.length id, memo)) = found at hfound
      obtain ⟨found, memo'⟩ := found
      obtain ⟨rfl, hgrows⟩ := hfound
      cases hread : g.longest id rest with
      | none =>
        rw [Grammar.readSymbols, Grammar.readSymbol, hread]
        exact ⟨rfl, hgrows⟩
      | some m =>
        obtain ⟨heq, hgrows'⟩ := hnext m.1 m.2 memo' hread hgrows.sound
        exact ⟨heq, hgrows.trans hgrows'⟩

/-- The match of a production as that of the non-terminal named. -/
def nodeMatch (name : String) (m : List ParseTree × List Char) : Match :=
  ⟨.node name m.1, m.2.length⟩

theorem Holds.matchBest_spec (h : Holds g t cs cs.length) (name : String)
    (productions : List (List Symbol))
    (hhere : ∀ before id after, before ++ .nonTerminal id :: after ∈ productions →
      (∀ s ∈ before, g.Nullable s) → Settles g cs here id)
    (best : Option (List ParseTree × List Char)) {memo : Memo} (hmemo : Sound g cs memo) :
    (t.matchBest here name productions (best.map (nodeMatch name)) memo).1 =
      ((productions.filterMap (Grammar.readSymbols g.longest · cs)).foldl
        (List.argAux fun m m' => m.2.length < m'.2.length) best).map (nodeMatch name) ∧
    Grows g cs memo (t.matchBest here name productions (best.map (nodeMatch name)) memo).2 := by
  induction productions generalizing best memo with
  | nil => exact ⟨rfl, .refl hmemo⟩
  | cons production productions ih =>
    obtain ⟨hfound, hgrows⟩ := h.matchSymbols_spec production List.suffix_rfl
      (fun _ before id after hsplit => hhere before id after (hsplit ▸ List.mem_cons_self)) [] hmemo
    have htail := fun best => ih (fun before id after hmem =>
      hhere before id after (List.mem_cons_of_mem _ hmem)) best hgrows.sound
    rw [matchBest, h.size_chars]
    generalize t.matchSymbols here production cs.length [] memo = found at *
    obtain ⟨found, memo'⟩ := found
    subst hfound
    cases hread : Grammar.readSymbols g.longest production cs with
    | none =>
      simp only [List.filterMap_cons, hread]
      exact ⟨(htail best).1, hgrows.trans (htail best).2⟩
    | some m =>
      simp only [List.filterMap_cons, hread, List.foldl_cons]
      cases best with
      | none => exact ⟨(htail (some m)).1, hgrows.trans (htail (some m)).2⟩
      | some b =>
        simp only [Option.map_some, nodeMatch, List.reverse_nil, List.nil_append, List.argAux]
        split
        · exact ⟨(htail (some m)).1, hgrows.trans (htail (some m)).2⟩
        · exact ⟨(htail (some b)).1, hgrows.trans (htail (some b)).2⟩

theorem getD_setIfInBounds (memo : Memo) (id b : Nat) (m : Option Match) :
    (memo.setIfInBounds id (some m)).getD b none =
      if id = b ∧ b < memo.size then some m else memo.getD b none := by
  simp only [Array.getD_eq_getD_getElem?, Array.getElem?_setIfInBounds]
  by_cases hb : id = b
  · subst hb
    by_cases hlt : id < memo.size <;> simp [hlt]
  · simp [hb]

theorem Sound.setIfInBounds {memo : Memo} (hmemo : Sound g cs memo) (id : Nat) {m : Option Match}
    (hm : m = (g.longest id cs).map Reading.toMatch) :
    Grows g cs memo (memo.setIfInBounds id (some m)) := by
  refine ⟨⟨by rw [Array.size_setIfInBounds, hmemo.size_eq], fun b m' hb => ?_⟩, fun b hb => ?_⟩
  · rw [getD_setIfInBounds] at hb
    split at hb
    next hid => rw [← hid.1, ← hm, ← Option.some.inj hb]
    next => exact hmemo.known b m' hb
  · rw [Knows, getD_setIfInBounds]
    split
    · rfl
    · exact hb

/-- A non-terminal whose rank is below the fuel is settled, and then known. -/
theorem Holds.matchHere_spec (hg : ¬g.LeftRecursive) (h : Holds g t cs cs.length) (fuel id : Nat)
    (hfuel : id < g.size → g.rank id < fuel) {memo : Memo} (hmemo : Sound g cs memo) :
    ((matchHere g t fuel id memo).1 = (g.longest id cs).map Reading.toMatch ∧
      Grows g cs memo (matchHere g t fuel id memo).2) ∧
    (id < g.size → Knows (matchHere g t fuel id memo).2 id) := by
  induction fuel generalizing id memo with
  | zero =>
    have hid : ¬id < g.size := fun hid => absurd (hfuel hid) (Nat.not_lt_zero _)
    rw [matchHere, Grammar.longest, Grammar.readTo_eq_none hid]
    exact ⟨⟨rfl, .refl hmemo⟩, fun h => absurd h hid⟩
  | succ fuel ih =>
    rw [matchHere]
    cases hknown : memo.getD id none with
    | some m =>
      exact ⟨⟨hmemo.known id m hknown, .refl hmemo⟩, fun _ => by rw [Knows, hknown]; rfl⟩
    | none =>
      cases hnt : g.nonTerminals[id]? with
      | none =>
        have hid : ¬id < g.size := fun hid => by
          rw [Array.getElem?_eq_getElem hid] at hnt
          exact Option.some_ne_none _ hnt
        rw [Grammar.longest, Grammar.readTo_eq_none hid]
        exact ⟨⟨rfl, .refl hmemo⟩, fun h => absurd h hid⟩
      | some nt =>
        have hid : id < g.size := (Array.getElem?_eq_some_iff.1 hnt).1
        have hproductions : g.productionsOf id = nt.productions := by
          rw [Grammar.productionsOf, hnt]; rfl
        have hentered : ∀ before b after, before ++ .nonTerminal b :: after ∈ nt.productions →
            (∀ s ∈ before, g.Nullable s) → Settles g cs (matchHere g t fuel) b := by
          intro before b after hmem hbefore memo hmemo
          refine (ih b (fun hb => ?_) hmemo).1
          have := Grammar.rank_lt_of_enters hg ⟨before, after, hproductions ▸ hmem, hbefore⟩ hb
          have := hfuel hid
          omega
        obtain ⟨hbest, hgrows⟩ := h.matchBest_spec nt.name nt.productions hentered none hmemo
        rw [Option.map_none] at hbest hgrows
        have hlongest : (t.matchBest (matchHere g t fuel) nt.name nt.productions none memo).1 =
            (g.longest id cs).map Reading.toMatch := by
          rw [Grammar.longest_eq hg, Grammar.readProductions, hproductions, Grammar.nameOf, hnt]
          rw [hbest, Option.map_map]
          rfl
        refine ⟨⟨hlongest, hgrows.trans (hgrows.sound.setIfInBounds id hlongest)⟩, fun _ => ?_⟩
        rw [Knows, getD_setIfInBounds, if_pos ⟨rfl, by rw [hgrows.sound.size_eq]; exact hid⟩]
        rfl

theorem Holds.settle_spec (hg : ¬g.LeftRecursive) (h : Holds g t cs cs.length) (id count : Nat)
    {memo : Memo} (hmemo : Sound g cs memo) :
    Grows g cs memo (settle g t id count memo) ∧
    ∀ b, id ≤ b → b < id + count → b < g.size → Knows (settle g t id count memo) b := by
  induction count generalizing id memo with
  | zero => exact ⟨.refl hmemo, fun b hle hlt => by omega⟩
  | succ count ih =>
    obtain ⟨⟨-, hgrows⟩, hknows⟩ := h.matchHere_spec hg g.size id (Grammar.rank_lt_size hg) hmemo
    obtain ⟨hrest, hall⟩ := ih (id + 1) hgrows.sound
    refine ⟨hgrows.trans hrest, fun b hle hlt hb => ?_⟩
    rcases Nat.eq_or_lt_of_le hle with rfl | hid
    · exact hrest.keeps _ (hknows hb)
    · exact hall b hid (by omega) hb

/-- What the settled row says of a non-terminal. -/
theorem Holds.row_eq (hg : ¬g.LeftRecursive) (h : Holds g t cs cs.length) (id : Nat) :
    (((settle g t 0 g.size (Array.replicate g.size none)).map Option.join)[id]?).join =
      (g.longest id cs).map Reading.toMatch := by
  have hempty : Sound g cs (Array.replicate g.size none) := by
    refine ⟨Array.size_replicate, fun b m hb => ?_⟩
    rw [Array.getD_eq_getD_getElem?, Array.getElem?_replicate] at hb
    split at hb <;> cases hb
  obtain ⟨hgrows, hknows⟩ := h.settle_spec hg 0 g.size hempty
  generalize settle g t 0 g.size (Array.replicate g.size none) = memo at *
  by_cases hid : id < g.size
  · have hlt : id < memo.size := by rw [hgrows.sound.size_eq]; exact hid
    obtain ⟨m, hm⟩ := Option.isSome_iff_exists.1 (hknows id (Nat.zero_le _) (by omega) hid)
    have hget : memo[id]? = some (some m) := by
      rw [Array.getD_eq_getD_getElem?, Array.getElem?_eq_getElem hlt, Option.getD_some] at hm
      rw [Array.getElem?_eq_getElem hlt, hm]
    rw [Array.getElem?_map, hget, ← hgrows.sound.known id m hm]
    rfl
  · have hge : memo.size ≤ id := by rw [hgrows.sound.size_eq]; exact Nat.not_lt.1 hid
    rw [Array.getElem?_map, Array.getElem?_eq_none hge, Grammar.longest, Grammar.readTo_eq_none hid]
    rfl

theorem Holds.addRow (hg : ¬g.LeftRecursive) (h : Holds g t cs cs.length) :
    Holds g (addRow g t) cs (cs.length + 1) := by
  refine ⟨h.chars_eq, ?_, fun rest hrest hlen id => ?_⟩
  · rw [ParseTable.addRow, Array.size_push, h.size_rows]
  · rw [ParseTable.addRow, lookup, Array.getElem?_push, h.size_rows]
    split
    next heq =>
      rw [hrest.eq_of_length heq]
      exact h.row_eq hg id
    next hne => exact h.lookup_eq rest hrest (by omega) id

/-- One more character at the front leaves the rows as they are, one short of the new text. -/
theorem Holds.cons (h : Holds g t cs (cs.length + 1)) (c : Char) :
    Holds g { t with chars := t.chars.push c } (c :: cs) (c :: cs).length := by
  refine ⟨?_, h.size_rows, fun rest hrest hlen id => ?_⟩
  · rw [Array.toList_push, h.chars_eq, List.reverse_cons]
  · have hsuffix : rest <:+ cs := (List.suffix_cons_iff.1 hrest).resolve_left fun heq => by
      rw [heq] at hlen
      exact Nat.lt_irrefl _ hlen
    exact h.lookup_eq rest hsuffix hlen id

/-- The table of a text holds the longest match of every non-terminal at every place. -/
theorem holds_ofText (hg : ¬g.LeftRecursive) (cs : List Char) :
    Holds g (ofText g cs) cs (cs.length + 1) := by
  rw [ofText, List.foldl_reverse]
  induction cs with
  | nil => exact Holds.addRow hg ⟨rfl, rfl, fun _ _ hlen => absurd hlen (Nat.not_lt_zero _)⟩
  | cons c cs ih => exact (ih.cons c).addRow hg

end ParseTable

/-- The outcome of parsing that a longest match of the start symbol stands for. -/
def outcomeOf (text : String) : Option Reading → Except ParseError ParseTree
  | some (tree, []) => .ok tree
  | some (_, rest) =>
    .error ⟨String.ofList (text.toList.take (text.toList.length - rest.length)), String.ofList rest⟩
  | none => .error ⟨"", text⟩

theorem parse_eq_outcomeOf {g : Grammar} (hg : ¬g.LeftRecursive) (text : String) :
    parse g text = outcomeOf text (g.longest g.start text.toList) := by
  have hlookup := (ParseTable.holds_ofText hg text.toList).lookup_eq text.toList List.suffix_rfl
    (Nat.lt_succ_self _) g.start
  rw [parse, hlookup]
  cases hread : g.longest g.start text.toList with
  | none => rfl
  | some m =>
    obtain ⟨tree, rest⟩ := m
    cases rest with
    | nil => rfl
    | cons c rest =>
      obtain ⟨hsuffix, -⟩ := Grammar.progressive_longest _ _ _ _ hread
      have hrest : text.toList.drop (text.toList.length - (c :: rest).length) = c :: rest :=
        (List.suffix_iff_eq_drop.1 hsuffix).symm
      simp only [Option.map_some, Reading.toMatch, List.length_cons, Nat.succ_ne_zero, if_false,
        outcomeOf]
      rw [← List.length_cons, hrest]

end PatternText
