import PatternText.Proofs.Grammar.Calls
import PatternText.Proofs.Grammar.Table
import PatternText.Proofs.Pattern.Parts

/-! Nested calls. A call for a non-terminal that is not yet in the memory goes through its productions
and calls for the non-terminals in them, so calls stand inside one another. Here they get room for a
number of levels, and a parse that needs more does not return. Without left recursion every level either
has taken a character since the one around it or has a lower rank at the same place, so there are no
more levels than non-terminals at each place of the text: parsing ends, and within this room. -/

namespace PatternText

namespace Grammar

/-- The call for a non-terminal with room for so many calls inside one another, this one among them.
What is known is taken from the memory, what is not is settled by the productions and remembered. -/
def callWithin (g : Grammar) : Nat → Nat → Call ParseTree
  | 0, _, _, _ => none
  | room + 1, id, cs, memo =>
    match memo[(id, cs.length)]? with
    | some known => some (known, memo)
    | none =>
      (callProductions (g.callWithin room) (g.productionsOf id) cs memo).map fun (found, memo) =>
        let best := (found.argmin fun m => m.2.length).map fun m => (.node (g.nameOf id) m.1, m.2)
        (best, memo.insert (id, cs.length) best)

/-- Parsing with room for so many nested calls, with nothing known at first. -/
def parseWithin (g : Grammar) (room : Nat) (text : String) : Option (Except ParseError ParseTree) :=
  (g.callWithin room g.start text.toList ∅).map fun (found, _) => outcomeOf text found

/-! ### Grammars of rules -/

theorem size_ofRules (rules : List (String × String)) :
    (ofRules rules).size = (rules.map Prod.fst).eraseDups.length := by
  simp [ofRules, size]

theorem lt_of_mem_symbolsOf {names : List String} {production : String} {b : Nat}
    (h : .nonTerminal b ∈ symbolsOf names production) : b < names.length := by
  have htoken {token : List Char} (h : symbolOfToken names token = .nonTerminal b) :
      b < names.length := by
    rw [symbolOfToken] at h
    split at h
    next id hid =>
      cases h
      exact (List.findIdx?_eq_some_iff_getElem.1 hid).1
    next => cases h
  rw [symbolsOf] at h
  split at h
  · cases List.mem_singleton.1 h
  next tokens _ =>
    obtain ⟨token, -, hsymbol⟩ := List.mem_map.1 h
    exact htoken hsymbol

theorem start_lt_size_ofRules {rules : List (String × String)} (hne : rules ≠ []) :
    (ofRules rules).start < (ofRules rules).size := by
  cases rules with
  | nil => exact absurd rfl hne
  | cons rule rules =>
    rw [size_ofRules, List.map_cons, List.eraseDups_cons, List.length_cons]
    exact Nat.succ_pos _

theorem closed_ofRules (rules : List (String × String)) : (ofRules rules).Closed := by
  intro id production hproduction b hb
  rw [productionsOf] at hproduction
  cases hnt : (ofRules rules).nonTerminals[id]? with
  | none =>
    rw [hnt] at hproduction
    cases hproduction
  | some nt =>
    rw [hnt] at hproduction
    have hmem : nt ∈ (ofRules rules).nonTerminals.toList :=
      Array.mem_toList_iff.2 (Array.mem_of_getElem? hnt)
    obtain ⟨name, -, rfl⟩ := List.mem_map.1 hmem
    obtain ⟨rule, -, rfl⟩ := List.mem_map.1 hproduction
    rw [size_ofRules]
    exact lt_of_mem_symbolsOf hb

/-! ### Room -/

variable {g : Grammar} {text : List Char}

/-- Room beyond the depth of a place is enough for a call there, whatever right memory it starts from. -/
theorem callWithin_spec (hg : ¬g.LeftRecursive) (hclosed : g.Closed) (room : Nat) {id : Nat}
    {cs : List Char} (hcs : cs <:+ text) (hroom : g.depthAt id cs < room) :
    g.Answers text (g.callWithin room) id cs := by
  induction room generalizing id cs with
  | zero => exact absurd hroom (Nat.not_lt_zero _)
  | succ room ih =>
    intro memo hmemo
    rw [callWithin]
    cases hknown : memo[(id, cs.length)]? with
    | some known =>
      have hright := hmemo id cs known hcs hknown
      exact ⟨memo, by rw [← hright], hmemo⟩
    | none =>
      have hfound : g.Returns text (callProductions (g.callWithin room) (g.productionsOf id) cs memo)
          ((g.productionsOf id).filterMap (readSymbols g.longest · cs)) := by
        refine callProductions_spec ?_ ?_ hmemo
        · intro before b after hmem hbefore
          have hb : b < g.size := hclosed id _ hmem b (List.mem_append_right _ List.mem_cons_self)
          have := depthAt_lt_of_enters hg ⟨before, after, hmem, hbefore⟩ hb cs
          exact ih hcs (by omega)
        · intro production hmem b rest hsymbol hrest hlt
          have := depthAt_lt_of_length_lt (a := id) hg (hclosed id production hmem b hsymbol) hlt
          exact ih (hrest.trans hcs) (by omega)
      obtain ⟨memo', hcall, hmemo'⟩ := hfound
      have hbest : g.longest id cs = _ := longest_eq hg id cs
      rw [readProductions] at hbest
      refine ⟨memo'.insert (id, cs.length) (g.longest id cs), ?_, hmemo'.insert id hcs⟩
      simp only [hcall, Option.map_some, ← hbest]

/-- Without left recursion, room for all non-terminals at each place of the text is enough. -/
theorem parseWithin_eq (hg : ¬g.LeftRecursive) (hclosed : g.Closed) (hstart : g.start < g.size)
    (text : String) {room : Nat} (hroom : g.size * (text.toList.length + 1) ≤ room) :
    g.parseWithin room text = some (parse g text) := by
  have hdepth : g.depthAt g.start text.toList < room :=
    (depthAt_lt hg hstart text.toList).trans_le hroom
  obtain ⟨memo, hcall, -⟩ := callWithin_spec hg hclosed room List.suffix_rfl hdepth ∅
    (g.foundSound_empty text.toList)
  rw [parseWithin, hcall, parse_eq_outcomeOf hg]
  rfl

/-- No room is enough where a call for the start symbol begins with the same call. -/
theorem parseWithin_eq_none {symbols : List Symbol} {others : List (List Symbol)}
    (h : g.productionsOf g.start = (.nonTerminal g.start :: symbols) :: others) (room : Nat)
    (text : String) : g.parseWithin room text = none := by
  have hcall : g.callWithin room g.start text.toList ∅ = none := by
    induction room with
    | zero => rfl
    | succ room ih =>
      rw [callWithin, h, Std.HashMap.getElem?_empty, callProductions, callSymbols, callSymbol, ih]
      rfl
  rw [parseWithin, hcall]
  rfl

end Grammar

open Grammar

theorem length_le_utf8ByteSize (cs : List Char) : cs.length ≤ (String.ofList cs).utf8ByteSize := by
  induction cs with
  | nil => exact Nat.zero_le _
  | cons c cs ih =>
    have hsplit : String.ofList (c :: cs) = String.singleton c ++ String.ofList cs := by
      simp
    have hpos := c.utf8Size_pos
    rw [hsplit, String.utf8ByteSize_append, String.utf8ByteSize_singleton, List.length_cons]
    omega

/-- Parsing ends with bounded nesting. The pattern grammar is not left-recursive, and with any grammar
that is not, room for as many nested calls as it has non-terminals, times the bytes of the text and one
more, is enough for the parse to return what it returns in any larger room. -/
theorem nesting_bounded :
    (¬patternGrammar.LeftRecursive) ∧
    ∀ rules : List (String × String), rules ≠ [] → ¬(ofRules rules).LeftRecursive →
      ∀ text room, (ofRules rules).size * (text.utf8ByteSize + 1) ≤ room →
        (ofRules rules).parseWithin room text = some (parse (ofRules rules) text) := by
  refine ⟨patternGrammar_not_leftRecursive, fun rules hne hg text room hroom => ?_⟩
  have hbytes : text.toList.length ≤ text.utf8ByteSize := by
    have hlength := length_le_utf8ByteSize text.toList
    rwa [String.ofList_toList] at hlength
  refine parseWithin_eq hg (closed_ofRules rules) (start_lt_size_ofRules hne) text (le_trans ?_ hroom)
  exact Nat.mul_le_mul_left _ (Nat.succ_le_succ hbytes)

theorem pattern_within :
    patternRules ≠ [] ∧ (¬(ofRules patternRules).LeftRecursive) ∧
      (ofRules patternRules).size * ("(é*)".utf8ByteSize + 1) ≤ 300 ∧
      (ofRules patternRules).parseWithin 300 "(é*)" = some (parse patternGrammar "(é*)") := by
  have hne : patternRules ≠ [] := List.cons_ne_nil _ _
  have hroom : (ofRules patternRules).size * ("(é*)".utf8ByteSize + 1) ≤ 300 := by decide +kernel
  exact ⟨hne, nesting_bounded.1, hroom,
    nesting_bounded.2 patternRules hne nesting_bounded.1 "(é*)" 300 hroom⟩

end PatternText
