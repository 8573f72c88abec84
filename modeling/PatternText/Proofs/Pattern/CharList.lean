import PatternText.Proofs.Pattern.Expression

/-! Character lists. What stands between the brackets of a list is a row of characters, of which a
closing bracket needs a backslash before it. A backslash takes a closing bracket behind it whenever it
can, so the list is closed by the first bracket that has none before it, and the row may not end in a
single backslash. Three characters of which the middle one is a hyphen make a range. -/

namespace PatternText

/-- What stands for one character in a list. -/
inductive ListChar where
  | plain (c : Char) (other : c ≠ ']')
  /-- A closing bracket after a backslash. -/
  | bracket

namespace ListChar

def text : ListChar → List Char
  | plain c _ => [c]
  | bracket => ['\\', ']']

def tree : ListChar → ParseTree
  | plain c _ => Part.charSpecChar.node [Part.nonMetaCharSpec.node [.leaf (some c)]]
  | bracket => Part.charSpecChar.node [Part.escMetaCharSpec.node
      [.leaf (some '\\'), Part.metaCharSpec.node [.leaf (some ']')]]]

def textAll (ts : List ListChar) : List Char := ts.flatMap text

theorem textAll_cons (t : ListChar) (ts : List ListChar) (cs : List Char) :
    textAll (t :: ts) ++ cs = t.text ++ (textAll ts ++ cs) := by
  rw [textAll, List.flatMap_cons, List.append_assoc, ← textAll]

theorem text_ne_nil (t : ListChar) : t.text ≠ [] := by
  cases t <;> exact List.cons_ne_nil _ _

theorem textAll_ne_nil {ts : List ListChar} (h : ts ≠ []) : textAll ts ≠ [] := by
  cases ts with
  | nil => exact absurd rfl h
  | cons t ts => exact List.append_ne_nil_of_left_ne_nil t.text_ne_nil _

/-- A backslash that is not followed by a closing bracket. -/
def backslash : ListChar := plain '\\' (by decide)

def caret : ListChar := plain '^' (by decide)

/-- The characters are read as they stand in front of this text, which is empty or closes the list: no
backslash takes a bracket behind it. -/
def Clean : List ListChar → List Char → Prop
  | [], stop => stop = [] ∨ stop.head? = some ']'
  | t :: ts, stop => (t = backslash → (textAll ts ++ stop).head? ≠ some ']') ∧ Clean ts stop

/-- Every text is a row of such characters up to the bracket that closes the list. -/
theorem exists_clean : ∀ cs : List Char, ∃ ts stop, cs = textAll ts ++ stop ∧ Clean ts stop
  | [] => ⟨[], [], rfl, .inl rfl⟩
  | c :: cs => by
    by_cases hc : c = ']'
    · exact ⟨[], c :: cs, rfl, .inr (congrArg some hc)⟩
    by_cases hhead : c = '\\' ∧ cs.head? = some ']'
    · obtain ⟨rest, rfl⟩ := List.head?_eq_some_iff.1 hhead.2
      obtain ⟨ts, stop, hrest, hclean⟩ := exists_clean rest
      exact ⟨bracket :: ts, stop, by rw [hhead.1, hrest]; rfl, nofun, hclean⟩
    · obtain ⟨ts, stop, hcs, hclean⟩ := exists_clean cs
      refine ⟨plain c hc :: ts, stop, congrArg (c :: ·) hcs, fun h => ?_, hclean⟩
      rw [← hcs]
      exact fun hcs => hhead ⟨plain.inj h, hcs⟩
termination_by cs => cs.length

/-- Only the first character of what follows matters. -/
theorem Clean.congr {ts : List ListChar} {stop stop' : List Char} (h : Clean ts stop)
    (hhead : stop.head? = stop'.head?) : Clean ts stop' := by
  induction ts with
  | nil =>
    rw [Clean, ← hhead]
    refine h.imp_left fun hnil => ?_
    rw [hnil] at hhead
    exact List.head?_eq_none_iff.1 hhead.symm
  | cons t ts ih =>
    refine ⟨fun ht => ?_, ih h.2⟩
    rw [List.head?_append, ← hhead, ← List.head?_append]
    exact h.1 ht

theorem Clean.over {ts : List ListChar} {stop : List Char} (h : Clean ts stop) :
    stop = [] ∨ stop.head? = some ']' := by
  induction ts with
  | nil => exact h
  | cons t ts ih => exact ih h.2

end ListChar

/-- An item of a list: one character, or all characters from one to another. -/
inductive ListItem where
  | single (char : ListChar)
  | range (first last : ListChar)

namespace ListItem

def tree : ListItem → ParseTree
  | single t => Part.charSpec.node [t.tree]
  | range first last =>
    Part.charSpec.node [Part.range.node [first.tree, .leaf (some '-'), last.tree]]

end ListItem

/-- The items that a row of list characters makes. -/
def listItems : List ListChar → List ListItem
  | first :: .plain '-' _ :: last :: ts => .range first last :: listItems ts
  | t :: ts => .single t :: listItems ts
  | [] => []

namespace Part

open Grammar PatternText.Symbol ListChar

variable {stop rest : List Char}

theorem reads_metaCharSpec_eq_none (h : rest.head? ≠ some ']') : metaCharSpec.reads rest = none := by
  cases rest with
  | nil => exact reads_nil_eq_none (by decide)
  | cons c rest => exact reads_single_eq_none rfl (row_lit_ne fun hc => h (congrArg some hc))

/-- A list character is read unless it is a backslash before a closing bracket. -/
theorem reads_charSpecChar (t : ListChar) (h : t = backslash → rest.head? ≠ some ']') :
    charSpecChar.reads (t.text ++ rest) = some (t.tree, rest) := by
  have hplain {c : Char} {cs : List Char} (other : c ≠ ']') : nonMetaCharSpec.reads (c :: cs) =
      some (nonMetaCharSpec.node [.leaf (some c)], cs) := by
    refine reads_of_single rfl ?_
    rw [row_noneOf fun hmem => other (List.mem_singleton.1 hmem), row_nil]
    rfl
  cases t with
  | plain c other =>
    apply reads_of_first rfl
    · rw [ListChar.text, List.singleton_append, row_ref (hplain other), row_nil]
      rfl
    · intro m hm
      rw [row_ref_none] at hm
      · cases hm
      · apply reads_single_eq_none rfl
        by_cases hc : c = '\\'
        · subst hc
          rw [ListChar.text, List.singleton_append, row_lit,
            row_ref_none (reads_metaCharSpec_eq_none (h rfl)), Option.map_none]
        · exact row_lit_ne hc
  | bracket =>
    have hbracket : metaCharSpec.reads (']' :: rest) =
        some (metaCharSpec.node [.leaf (some ']')], rest) :=
      reads_of_single rfl (by rw [row_lit, row_nil]; rfl)
    have hescaped : escMetaCharSpec.reads ('\\' :: ']' :: rest) =
        some (escMetaCharSpec.node [.leaf (some '\\'), metaCharSpec.node [.leaf (some ']')]], rest) :=
      reads_of_single rfl (by rw [row_lit, row_ref hbracket, row_nil]; rfl)
    apply reads_of_second rfl
    · rw [ListChar.text, List.cons_append, List.singleton_append, row_ref hescaped, row_nil]
      rfl
    · intro m hm
      rw [ListChar.text, List.cons_append, row_ref (hplain (by decide)), row_nil] at hm
      obtain rfl := Option.some.inj hm
      exact Nat.lt_succ_self _

/-- Neither a list character nor an item begins where a list is over. -/
theorem reads_eq_none_of_over {p : Part} (hp : p ∈ [charSpecChar, charSpec])
    (h : stop = [] ∨ stop.head? = some ']') : p.reads stop = none := by
  have hboth : ∀ p ∈ [charSpecChar, charSpec],
      p ∉ nullable ∧ p.refuses [.oneOf [']']] = true := by
    decide +kernel
  obtain ⟨hnull, hrefuses⟩ := hboth p hp
  rcases h with rfl | h
  · exact reads_nil_eq_none hnull
  · obtain ⟨rest, rfl⟩ := List.head?_eq_some_iff.1 h
    exact reads_eq_none [.oneOf [']']] hrefuses rfl

/-- A range is taken where two list characters stand around a hyphen. -/
theorem reads_charSpec_range {first last : ListChar} {ts : List ListChar} {other : '-' ≠ ']'}
    (h : Clean (first :: plain '-' other :: last :: ts) stop) :
    charSpec.reads (textAll (first :: plain '-' other :: last :: ts) ++ stop) =
      some ((ListItem.range first last).tree, textAll ts ++ stop) := by
  have hfirst := reads_charSpecChar first h.1
  have hrange : range.reads (textAll (first :: plain '-' other :: last :: ts) ++ stop) =
      some (range.node [first.tree, .leaf (some '-'), last.tree], textAll ts ++ stop) := by
    refine reads_of_single rfl ?_
    rw [textAll_cons, row_ref hfirst, textAll_cons, ListChar.text, List.singleton_append, row_lit,
      textAll_cons, row_ref (reads_charSpecChar last h.2.2.1), row_nil]
    rfl
  apply reads_of_second rfl
  · rw [row_ref hrange, row_nil]
    rfl
  · intro m hm
    rw [textAll_cons, row_ref hfirst, row_nil] at hm
    obtain rfl := Option.some.inj hm
    rw [textAll_cons, textAll_cons]
    simp only [ListChar.text, List.length_append, List.length_singleton]
    omega

/-- A list character that no hyphen and further character follow is read by itself. -/
theorem reads_charSpec_single {t : ListChar} {ts : List ListChar} (h : Clean (t :: ts) stop)
    (hrange : ∀ other last ts', ts ≠ plain '-' other :: last :: ts') :
    charSpec.reads (textAll (t :: ts) ++ stop) =
      some ((ListItem.single t).tree, textAll ts ++ stop) := by
  have hchar := reads_charSpecChar t h.1
  rw [textAll_cons]
  apply reads_of_first rfl
  · rw [row_ref hchar, row_nil]
    rfl
  · intro m hm
    rw [row_ref_none] at hm
    · cases hm
    · apply reads_single_eq_none rfl
      rw [row_ref hchar, Option.map_eq_none_iff]
      cases ts with
      | nil =>
        apply row_lit_eq_none
        rcases h.2 with rfl | hstop
        · nofun
        · rw [textAll, List.flatMap_nil, List.nil_append, hstop]
          decide
      | cons u us =>
        rw [textAll_cons]
        cases u with
        | bracket => exact row_lit_ne (by decide)
        | plain c other =>
          by_cases hc : c = '-'
          · subst hc
            rw [ListChar.text, List.singleton_append, row_lit, row_ref_none, Option.map_none]
            cases us with
            | nil => exact reads_eq_none_of_over (by decide) h.2.2
            | cons last ts' => exact absurd rfl (hrange other last ts')
          · exact row_lit_ne hc

/-- The items of a row are read one after the other. -/
theorem reads_charSpecs {ts : List ListChar} (h : Clean ts stop) :
    charSpecs.reads (textAll ts ++ stop) =
      some (charSpecs.rowTree ((listItems ts).map ListItem.tree), stop) := by
  fun_induction listItems ts with
  | case1 first other last ts ih => exact reads_row_cons rfl (reads_charSpec_range h) (ih h.2.2.2)
  | case2 t ts hrange ih =>
    refine reads_row_cons rfl (reads_charSpec_single h fun other last ts' heq => ?_) (ih h.2)
    exact hrange other last ts' heq
  | case3 => exact reads_row_nil rfl (reads_eq_none_of_over (by decide) h)

/-- The symbols of a list behind its opening. -/
def listSymbols : List Symbol := [charSpec.ref, charSpecs.ref, lit ']']

/-- The trees for these symbols. -/
def listTrees (ts : List ListChar) : List ParseTree :=
  match listItems ts with
  | [] => []
  | item :: items =>
    [item.tree, charSpecs.rowTree (items.map ListItem.tree), .leaf (some ']')]

theorem row_listSymbols_closed {ts : List ListChar} (hne : ts ≠ []) (h : Clean ts (']' :: rest)) :
    row listSymbols (textAll ts ++ ']' :: rest) = some (listTrees ts, rest) := by
  rw [listSymbols, listTrees]
  fun_cases listItems ts with
  | case1 first other last ts =>
    rw [row_ref (reads_charSpec_range h), row_ref (reads_charSpecs h.2.2.2), row_lit, row_nil]
    rfl
  | case2 t ts hrange =>
    rw [row_ref (reads_charSpec_single h fun other last ts' heq => hrange other last ts' heq),
      row_ref (reads_charSpecs h.2), row_lit, row_nil]
    rfl
  | case3 => exact absurd rfl hne

theorem row_listSymbols_open {ts : List ListChar} (h : Clean ts []) :
    row listSymbols (textAll ts) = none := by
  rw [← List.append_nil (textAll ts), listSymbols]
  fun_cases listItems ts with
  | case1 first other last ts =>
    rw [row_ref (reads_charSpec_range h), row_ref (reads_charSpecs h.2.2.2)]
    rfl
  | case2 t ts hrange =>
    rw [row_ref (reads_charSpec_single h fun other last ts' heq => hrange other last ts' heq),
      row_ref (reads_charSpecs h.2)]
    rfl
  | case3 => exact row_ref_none (reads_eq_none_of_over (by decide) (.inl rfl))

/-- Whatever is read as the inside of a list is a clean row up to a closing bracket. -/
theorem exists_of_row_listSymbols {cs : List Char} {trees : List ParseTree}
    (h : row listSymbols cs = some (trees, rest)) :
    ∃ ts, ts ≠ [] ∧ Clean ts (']' :: rest) ∧ cs = textAll ts ++ ']' :: rest := by
  obtain ⟨ts, stop, rfl, hclean⟩ := exists_clean cs
  cases stop with
  | nil =>
    rw [List.append_nil, row_listSymbols_open hclean] at h
    cases h
  | cons c stop =>
    obtain rfl : c = ']' := Option.some.inj (hclean.over.resolve_left nofun)
    by_cases hne : ts = []
    · subst hne
      rw [listSymbols, row_ref_none (reads_eq_none_of_over (by decide) (.inr rfl))] at h
      cases h
    · rw [row_listSymbols_closed hne hclean] at h
      obtain ⟨-, rfl⟩ := Prod.mk.inj (Option.some.inj h)
      exact ⟨ts, hne, hclean, rfl⟩

theorem reads_inclusiveList {ts : List ListChar} (hne : ts ≠ []) (h : Clean ts (']' :: rest)) :
    inclusiveList.reads ('[' :: (textAll ts ++ ']' :: rest)) =
      some (inclusiveList.node (.leaf (some '[') :: listTrees ts), rest) := by
  refine reads_of_single rfl ?_
  rw [row_lit, ← listSymbols, row_listSymbols_closed hne h]
  rfl

theorem reads_exclusiveList {ts : List ListChar} (hne : ts ≠ []) (h : Clean ts (']' :: rest)) :
    exclusiveList.reads ('[' :: '^' :: (textAll ts ++ ']' :: rest)) =
      some (exclusiveList.node (.leaf (some '[') :: .leaf (some '^') :: listTrees ts), rest) := by
  refine reads_of_single rfl ?_
  rw [row_lit, row_lit, ← listSymbols, row_listSymbols_closed hne h]
  rfl

end Part

open ListChar

/-- A list as it is read: a caret behind the opening negates if more than the closing follows. -/
structure CharList where
  negated : Bool
  chars : List ListChar
  nonempty : chars ≠ []
  clean : Clean chars [']']
  caretAlone : negated = false → ∀ ts, chars = caret :: ts → ts = []

namespace CharList

def text (l : CharList) : List Char :=
  '[' :: ((if l.negated then ['^'] else []) ++ (textAll l.chars ++ [']']))

def tree (l : CharList) : ParseTree :=
  if l.negated then
    Part.exclusiveList.node (.leaf (some '[') :: .leaf (some '^') :: Part.listTrees l.chars)
  else Part.inclusiveList.node (.leaf (some '[') :: Part.listTrees l.chars)

/-- Every row that can stand in a list stands in one, whichever way it is marked. -/
theorem exists_of_clean {ts : List ListChar} (hne : ts ≠ []) (h : Clean ts [']']) :
    ∃ l : CharList, l.text = '[' :: (textAll ts ++ [']']) := by
  by_cases hcaret : ∃ us, us ≠ [] ∧ ts = caret :: us
  · obtain ⟨us, hus, rfl⟩ := hcaret
    exact ⟨⟨true, us, hus, h.2, nofun⟩, rfl⟩
  · refine ⟨⟨false, ts, hne, h, fun _ us hts => ?_⟩, rfl⟩
    by_contra hus
    exact hcaret ⟨us, hus, hts⟩

theorem exists_of_clean_negated {ts : List ListChar} (hne : ts ≠ []) (h : Clean ts [']']) :
    ∃ l : CharList, l.text = '[' :: '^' :: (textAll ts ++ [']']) :=
  ⟨⟨true, ts, hne, h, nofun⟩, rfl⟩

end CharList

namespace Part

open Grammar PatternText.Symbol

variable {rest : List Char}

/-- A plain list is not read as a negated one: after a caret it would have no item left. -/
theorem reads_exclusiveList_eq_none {ts : List ListChar} (hne : ts ≠ [])
    (hcaret : ∀ us, ts = caret :: us → us = []) :
    exclusiveList.reads ('[' :: (textAll ts ++ ']' :: rest)) = none := by
  apply reads_single_eq_none rfl
  rw [row_lit, ← listSymbols, Option.map_eq_none_iff]
  cases ts with
  | nil => exact absurd rfl hne
  | cons t us =>
    rw [textAll_cons]
    cases t with
    | bracket => exact row_lit_ne (by decide)
    | plain c other =>
      by_cases hc : c = '^'
      · subst hc
        obtain rfl := hcaret us rfl
        have hnone : charSpec.reads (']' :: rest) = none :=
          reads_eq_none_of_over (by decide) (.inr rfl)
        rw [ListChar.text, List.singleton_append, row_lit, textAll, List.flatMap_nil,
          List.nil_append, listSymbols, row_ref_none hnone, Option.map_none]
      · exact row_lit_ne hc

/-- A list is read as one character: the negated reading comes first where both are possible. -/
theorem reads_char_list (l : CharList) : char.reads (l.text ++ rest) = some (char.node [l.tree], rest) := by
  have hothers (cs : List Char) : ∀ q ∈ char.productions.take 9, row q ('[' :: cs) = none := by
    have h : (char.productions.take 9).all (rowRefuses · [.oneOf ['[']]) = true := by decide +kernel
    exact fun q hq => row_eq_none _ (List.all_eq_true.1 h q hq) rfl
  obtain ⟨negated, chars, hne, hclean, hcaret⟩ := l
  have hclean : Clean chars (']' :: rest) := hclean.congr rfl
  cases negated with
  | true =>
    have htext : (CharList.mk true chars hne ‹_› hcaret).text ++ rest =
        '[' :: '^' :: (textAll chars ++ ']' :: rest) := by
      simp [CharList.text]
    rw [htext]
    apply reads_of_best 9 rfl
    · rw [row_ref (reads_exclusiveList hne hclean), row_nil]
      rfl
    · intro q hq m hm
      rw [hothers _ q hq] at hm
      cases hm
    · intro q hq m hm
      obtain rfl : q = [inclusiveList.ref] := by simpa [productions] using hq
      have hcareted : Clean (caret :: chars) (']' :: rest) := ⟨nofun, hclean⟩
      have hplain := reads_inclusiveList (List.cons_ne_nil _ _) hcareted
      rw [textAll_cons] at hplain
      have hm' : row [inclusiveList.ref] ('[' :: '^' :: (textAll chars ++ ']' :: rest)) = _ :=
        row_ref hplain
      rw [hm', row_nil] at hm
      obtain rfl := Option.some.inj hm
      exact Nat.le_refl _
  | false =>
    have htext : (CharList.mk false chars hne ‹_› hcaret).text ++ rest =
        '[' :: (textAll chars ++ ']' :: rest) := by
      simp [CharList.text]
    rw [htext]
    apply reads_of_best 10 rfl
    · rw [row_ref (reads_inclusiveList hne hclean), row_nil]
      rfl
    · intro q hq m hm
      have hq : q ∈ char.productions.take 9 ++ [[exclusiveList.ref]] := hq
      rcases List.mem_append.1 hq with hq | hq
      · rw [hothers _ q hq] at hm
        cases hm
      · obtain rfl := List.mem_singleton.1 hq
        rw [row_ref_none (reads_exclusiveList_eq_none hne (hcaret rfl))] at hm
        cases hm
    · nofun

end Part

end PatternText
