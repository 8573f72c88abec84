import PatternText.Proofs.Grammar.Derivation
import PatternText.Proofs.Grammar.Spelling
import PatternText.Proofs.Pattern.Syntax

/-! Patterns from derivations. Whatever the rules of patterns let a part take is the text of a piece of
syntax: this follows part by part from the productions, for derivations and for longest matches alike,
since both unfold. Only lists differ. A list that the rules derive may end in a backslash before its
closing bracket, and then no pattern is read from it; so what the texts of lists are is taken as given
here. -/

namespace PatternText

namespace Part

open Grammar PatternText.Symbol

section Unfolding

variable {R : Nat → List Char → Prop} {p q : Part} {w : List Char} {symbols : List Symbol}

/-- What a part can take. -/
def takes (R : Nat → List Char → Prop) (p : Part) (w : List Char) : Prop := R p.ctorIdx w

theorem splits_ref : Splits R (p.ref :: symbols) w ↔
    ∃ v u, w = v ++ u ∧ p.takes R v ∧ Splits R symbols u :=
  splits_nonTerminal

theorem splits_single_ref : Splits R [p.ref] w ↔ p.takes R w := by
  rw [splits_ref]
  constructor
  · rintro ⟨v, u, rfl, hv, hu⟩
    rw [splits_nil.1 hu, List.append_nil]
    exact hv
  · exact fun h => ⟨w, [], (List.append_nil w).symm, h, splits_nil.2 rfl⟩

theorem splits_single_oneOf {chars : List Char} :
    Splits R [oneOf chars] w ↔ ∃ c ∈ chars, w = [c] := by
  constructor
  · intro h
    obtain ⟨c, u, rfl, hc, hu⟩ := splits_oneOf.1 h
    exact ⟨c, hc, by rw [splits_nil.1 hu]⟩
  · rintro ⟨c, hc, rfl⟩
    exact splits_oneOf.2 ⟨c, [], rfl, hc, splits_nil.2 rfl⟩

theorem splits_lit {c : Char} : Splits R (lit c :: symbols) w ↔
    ∃ u, w = c :: u ∧ Splits R symbols u := by
  rw [lit, splits_oneOf]
  constructor
  · rintro ⟨d, u, rfl, hd, hu⟩
    exact ⟨u, by rw [List.mem_singleton.1 hd], hu⟩
  · rintro ⟨u, rfl, hu⟩
    exact ⟨c, u, rfl, List.mem_singleton_self c, hu⟩

theorem splits_lits {word : List Char} : Splits R (word.map lit ++ symbols) w ↔
    ∃ u, w = word ++ u ∧ Splits R symbols u := by
  induction word generalizing w with
  | nil => simp
  | cons c word ih =>
    rw [List.map_cons, List.cons_append, splits_lit]
    constructor
    · rintro ⟨u, rfl, hu⟩
      obtain ⟨v, rfl, hv⟩ := ih.1 hu
      exact ⟨v, rfl, hv⟩
    · rintro ⟨v, rfl, hv⟩
      exact ⟨word ++ v, rfl, ih.2 ⟨v, rfl, hv⟩⟩

theorem eq_of_splits_lits (word : List Char) (h : Splits R (word.map lit) w) : w = word := by
  rw [← List.append_nil (word.map lit)] at h
  obtain ⟨u, rfl, hu⟩ := splits_lits.1 h
  rw [splits_nil.1 hu, List.append_nil]

variable (hR : patternGrammar.Unfolds R)
include hR

theorem exists_splits (h : p.takes R w) : ∃ production ∈ p.productions, Splits R production w := by
  rw [← productionsOf_ctorIdx]
  exact hR _ _ h

theorem splits_of_single {production : List Symbol} (hp : p.productions = [production])
    (h : p.takes R w) : Splits R production w := by
  obtain ⟨production', hmem, hsplits⟩ := exists_splits hR h
  rw [hp] at hmem
  obtain rfl := List.mem_singleton.1 hmem
  exact hsplits

/-- A part with single parts for its productions takes what one of them takes. -/
theorem exists_takes (ps : List Part) (hp : p.productions = ps.map fun q => [q.ref])
    (h : p.takes R w) : ∃ q ∈ ps, q.takes R w := by
  obtain ⟨production, hmem, hsplits⟩ := exists_splits hR h
  rw [hp] at hmem
  obtain ⟨q, hq, rfl⟩ := List.mem_map.1 hmem
  exact ⟨q, hq, splits_single_ref.1 hsplits⟩

/-- A part that repeats another one takes a row of what that one takes. -/
theorem exists_items {α : Type} (text : α → List Char)
    (hp : p.productions = [[q.ref, p.ref], [epsilon]])
    (hitem : ∀ v : List Char, v.length ≤ w.length → q.takes R v → ∃ a, v = text a)
    (hne : ∀ a, text a ≠ []) (h : p.takes R w) : ∃ items : List α, w = items.flatMap text := by
  induction hn : w.length using Nat.strong_induction_on generalizing w with
  | _ n ih =>
    obtain ⟨production, hmem, hsplits⟩ := exists_splits hR h
    rw [hp] at hmem
    rcases List.mem_pair.1 hmem with rfl | rfl
    · obtain ⟨v, u, rfl, hv, hu⟩ := splits_ref.1 hsplits
      obtain ⟨a, rfl⟩ := hitem v (by rw [List.length_append]; omega) hv
      have hpos := List.length_pos_iff.2 (hne a)
      rw [List.length_append] at hn
      obtain ⟨items, rfl⟩ := ih u.length (by omega)
        (fun v hlen => hitem v (hlen.trans (by rw [List.length_append]; omega)))
        (splits_single_ref.1 hu) rfl
      exact ⟨a :: items, rfl⟩
    · obtain rfl := splits_nil.1 (splits_epsilon.1 hsplits)
      exact ⟨[], rfl⟩

/-! ### Expressions and modifiers -/

theorem eq_of_takes_word (word : List Char) (hp : p.productions = [word.map lit])
    (h : p.takes R w) : w = word :=
  eq_of_splits_lits word (splits_of_single hR hp h)

theorem exists_digit (h : digit.takes R w) : ∃ c ∈ digitChars, w = [c] :=
  splits_single_oneOf.1 (splits_of_single hR rfl h)

theorem exists_exprChar (h : exprChar.takes R w) : ∃ c ∈ exprAlphabet, w = [c] := by
  obtain ⟨production, hmem, hsplits⟩ := exists_splits hR h
  simp only [productions, List.mem_cons, List.not_mem_nil, or_false] at hmem
  rcases hmem with rfl | rfl | rfl
  · obtain ⟨c, hc, rfl⟩ := splits_single_oneOf.1 hsplits
    exact ⟨c, List.mem_append_left _ hc, rfl⟩
  · obtain ⟨c, hc, rfl⟩ := exists_digit hR (splits_single_ref.1 hsplits)
    exact ⟨c, List.mem_append_right _ (List.mem_append_left _ hc), rfl⟩
  · obtain rfl := eq_of_takes_word hR ['.'] rfl (splits_single_ref.1 hsplits)
    exact ⟨'.', by decide, rfl⟩

/-- A part made of one character and more of its kind takes a row of such characters. -/
theorem exists_headed {r : Part} {chars : List Char} (hp : p.productions = [[r.ref, q.ref]])
    (hq : q.productions = [[r.ref, q.ref], [epsilon]])
    (hr : ∀ v, r.takes R v → ∃ c ∈ chars, v = [c]) (h : p.takes R w) :
    w ≠ [] ∧ ∀ c ∈ w, c ∈ chars := by
  obtain ⟨v, u, rfl, hv, hu⟩ := splits_ref.1 (splits_of_single hR hp h)
  obtain ⟨c, hc, rfl⟩ := hr v hv
  obtain ⟨items, rfl⟩ := exists_items hR (fun a : { c // c ∈ chars } => [a.1]) hq
    (fun v _ hv => by
      obtain ⟨d, hd, rfl⟩ := hr v hv
      exact ⟨⟨d, hd⟩, rfl⟩)
    (fun _ => List.cons_ne_nil _ _) (splits_single_ref.1 hu)
  refine ⟨List.cons_ne_nil _ _, fun d hd => ?_⟩
  rw [List.singleton_append, List.mem_cons] at hd
  rcases hd with rfl | hd
  · exact hc
  · obtain ⟨a, -, ha⟩ := List.mem_flatMap.1 hd
    rw [List.mem_singleton.1 ha]
    exact a.2

theorem exists_exprText (h : expression.takes R w) : ∃ e : ExprText, w = e.chars := by
  obtain ⟨hne, hall⟩ := exists_headed hR rfl rfl (fun _ => exists_exprChar hR) h
  exact ⟨⟨w, hne, hall⟩, rfl⟩

theorem exists_digitText (h : number.takes R w) : ∃ d : DigitText, w = d.chars := by
  obtain ⟨hne, hall⟩ := exists_headed hR rfl rfl (fun _ => exists_digit hR) h
  exact ⟨⟨w, hne, hall⟩, rfl⟩

theorem exists_optText (h : optBackrefMod.takes R w) : ∃ m, w = FirstModifier.optText m := by
  obtain ⟨production, hmem, hsplits⟩ := exists_splits hR h
  rcases List.mem_pair.1 hmem with rfl | rfl
  · obtain ⟨u, rfl, hu⟩ := splits_lit.1 hsplits
    obtain ⟨q, hq, hv⟩ :=
      exists_takes hR [backrefModFirst, backrefModMinFirst] rfl (splits_single_ref.1 hu)
    rcases List.mem_pair.1 hq with rfl | rfl
    · obtain rfl := eq_of_takes_word hR firstWord rfl hv
      exact ⟨some .first, rfl⟩
    · obtain rfl := eq_of_takes_word hR ('-' :: firstWord) rfl hv
      exact ⟨some .minusFirst, rfl⟩
  · obtain rfl := splits_nil.1 (splits_epsilon.1 hsplits)
    exact ⟨none, rfl⟩

theorem exists_numberModifier (h : exprMod.takes R w) : ∃ m : NumberModifier, w = m.text := by
  obtain ⟨production, hmem, hsplits⟩ := exists_splits hR h
  rcases List.mem_pair.1 hmem with rfl | rfl
  · obtain ⟨u, rfl, hu⟩ := splits_lits.1 hsplits
    obtain ⟨v, u, rfl, hv, hu⟩ := splits_ref.1 hu
    obtain rfl := eq_of_splits_lits [')'] hu
    obtain ⟨places, rfl⟩ := exists_digitText hR hv
    exact ⟨.fixed places, rfl⟩
  · exact ⟨.simplify, eq_of_splits_lits simplifyWord hsplits⟩

theorem exists_numberModifiers (h : optExprMods.takes R w) :
    ∃ ms, w = NumberModifier.textAll ms := by
  induction hn : w.length using Nat.strong_induction_on generalizing w with
  | _ n ih =>
    obtain ⟨production, hmem, hsplits⟩ := exists_splits hR h
    rcases List.mem_pair.1 hmem with rfl | rfl
    · obtain ⟨_, rfl, hu⟩ := splits_lit.1 hsplits
      obtain ⟨v, u, rfl, hv, hu'⟩ := splits_ref.1 hu
      obtain ⟨m, rfl⟩ := exists_numberModifier hR hv
      rw [List.length_cons, List.length_append] at hn
      obtain ⟨ms, rfl⟩ := ih u.length (by omega) (splits_single_ref.1 hu') rfl
      exact ⟨m :: ms, rfl⟩
    · obtain rfl := splits_nil.1 (splits_epsilon.1 hsplits)
      exact ⟨[], rfl⟩

/-! ### Lists -/

theorem exists_listChar (h : charSpecChar.takes R w) : ∃ t : ListChar, w = t.text := by
  obtain ⟨q, hq, h⟩ := exists_takes hR [nonMetaCharSpec, escMetaCharSpec] rfl h
  rcases List.mem_pair.1 hq with rfl | rfl
  · obtain ⟨c, u, rfl, hc, hu⟩ := splits_noneOf.1 (splits_of_single hR rfl h)
    obtain rfl := splits_nil.1 hu
    exact ⟨.plain c fun heq => hc (List.mem_singleton.2 heq), rfl⟩
  · obtain ⟨u, rfl, hu⟩ := splits_lit.1 (splits_of_single hR rfl h)
    obtain rfl := eq_of_takes_word hR [']'] rfl (splits_single_ref.1 hu)
    exact ⟨.bracket, rfl⟩

open ListChar

theorem exists_listItem (h : charSpec.takes R w) : ∃ ts, ts ≠ [] ∧ w = textAll ts := by
  obtain ⟨q, hq, h⟩ := exists_takes hR [charSpecChar, range] rfl h
  rcases List.mem_pair.1 hq with rfl | rfl
  · obtain ⟨t, rfl⟩ := exists_listChar hR h
    exact ⟨[t], List.cons_ne_nil _ _, (List.append_nil _).symm⟩
  · obtain ⟨v, _, rfl, hv, hu⟩ := splits_ref.1 (splits_of_single hR rfl h)
    obtain ⟨_, rfl, hu'⟩ := splits_lit.1 hu
    obtain ⟨first, rfl⟩ := exists_listChar hR hv
    obtain ⟨last, rfl⟩ := exists_listChar hR (splits_single_ref.1 hu')
    refine ⟨[first, plain '-' (by decide), last], List.cons_ne_nil _ _, ?_⟩
    rw [textAll, List.flatMap_cons, List.flatMap_cons, List.flatMap_singleton]
    rfl

theorem exists_listChars (h : charSpecs.takes R w) : ∃ ts, w = textAll ts := by
  obtain ⟨items, rfl⟩ := exists_items hR (fun ts : { ts : List ListChar // ts ≠ [] } => textAll ts.1) rfl
    (fun v _ hv => by
      obtain ⟨ts, hne, rfl⟩ := exists_listItem hR hv
      exact ⟨⟨ts, hne⟩, rfl⟩)
    (fun ts => textAll_ne_nil ts.2) h
  refine ⟨items.flatMap Subtype.val, ?_⟩
  rw [textAll, List.flatMap_assoc]
  rfl

theorem exists_list (h : Splits R listSymbols w) :
    ∃ ts, ts ≠ [] ∧ w = textAll ts ++ [']'] := by
  obtain ⟨v, _, rfl, hv, hu⟩ := splits_ref.1 h
  obtain ⟨u, _, rfl, hu', hend⟩ := splits_ref.1 hu
  obtain rfl := eq_of_splits_lits [']'] hend
  obtain ⟨ts, hne, rfl⟩ := exists_listItem hR hv
  obtain ⟨us, rfl⟩ := exists_listChars hR hu'
  refine ⟨ts ++ us, List.append_ne_nil_of_left_ne_nil hne _, ?_⟩
  rw [textAll, textAll, textAll, List.flatMap_append, List.append_assoc]

/-! ### Atoms and quantifiers -/

theorem exists_quantifier (h : multiplier.takes R w) : ∃ x : Quantifier, w = x.text := by
  obtain ⟨q, hq, h⟩ := exists_takes hR
    [zeroOrMore, zeroOrOne, oneOrMore, numberOf, numberOrMoreOf, numberRangeOf] rfl h
  simp only [List.mem_cons, List.not_mem_nil, or_false] at hq
  rcases hq with rfl | rfl | rfl | rfl | rfl | rfl
  · exact ⟨.zeroOrMore, eq_of_takes_word hR ['*'] rfl h⟩
  · exact ⟨.zeroOrOne, eq_of_takes_word hR ['?'] rfl h⟩
  · exact ⟨.oneOrMore, eq_of_takes_word hR ['+'] rfl h⟩
  · obtain ⟨_, rfl, hu⟩ := splits_lit.1 (splits_of_single hR rfl h)
    obtain ⟨v, _, rfl, hv, hu'⟩ := splits_ref.1 hu
    obtain rfl := eq_of_splits_lits ['}'] hu'
    obtain ⟨e, rfl⟩ := exists_exprText hR hv
    exact ⟨.exactly e, rfl⟩
  · obtain ⟨_, rfl, hu⟩ := splits_lit.1 (splits_of_single hR rfl h)
    obtain ⟨v, _, rfl, hv, hu'⟩ := splits_ref.1 hu
    obtain rfl := eq_of_splits_lits [',', '}'] hu'
    obtain ⟨e, rfl⟩ := exists_exprText hR hv
    exact ⟨.atLeast e, rfl⟩
  · obtain ⟨_, rfl, hu⟩ := splits_lit.1 (splits_of_single hR rfl h)
    obtain ⟨v, _, rfl, hv, hu'⟩ := splits_ref.1 hu
    obtain ⟨_, rfl, hw⟩ := splits_lit.1 hu'
    obtain ⟨v', _, rfl, hv', hend⟩ := splits_ref.1 hw
    obtain rfl := eq_of_splits_lits ['}'] hend
    obtain ⟨e, rfl⟩ := exists_exprText hR hv
    obtain ⟨f, rfl⟩ := exists_exprText hR hv'
    exact ⟨.between e f, rfl⟩

theorem exists_escaped {chars : List Char} (hp : p.productions = [[lit '\\', q.ref]])
    (hq : q.productions = [[oneOf chars]]) (h : p.takes R w) : ∃ c ∈ chars, w = ['\\', c] := by
  obtain ⟨_, rfl, hu⟩ := splits_lit.1 (splits_of_single hR hp h)
  have htakes := splits_of_single hR hq (splits_single_ref.1 hu)
  obtain ⟨c, hc, rfl⟩ := splits_single_oneOf.1 htakes
  exact ⟨c, hc, rfl⟩

theorem exists_named {c : Char} (hmem : (p, c) ∈ escapeLetters) (h : p.takes R w) :
    ∃ a : Atom, w = a.text := by
  have hletters : ∀ x ∈ escapeLetters, x.1.productions = [['\\', x.2].map lit] := by decide
  exact ⟨.named p c hmem, eq_of_takes_word hR ['\\', c] (hletters _ hmem) h⟩

variable (hlist : ∀ w, inclusiveList.takes R w ∨ exclusiveList.takes R w →
  ∃ l : CharList, w = l.text)
include hlist

theorem exists_char (h : char.takes R w) : ∃ a : Atom, w = a.text := by
  obtain ⟨q, hq, h⟩ := exists_takes hR
    [nonMetaChar, escMetaChar, digit, whitespace, nonWhitespace, digitAlias, nonDigitAlias,
      wordChar, nonWordChar, exclusiveList, inclusiveList] rfl h
  simp only [List.mem_cons, List.not_mem_nil, or_false] at hq
  rcases hq with rfl | rfl | rfl | rfl | rfl | rfl | rfl | rfl | rfl | rfl | rfl
  · obtain ⟨c, _, rfl, hc, hnil⟩ := splits_noneOf.1 (splits_of_single hR rfl h)
    obtain rfl := splits_nil.1 hnil
    exact ⟨.plain c hc, rfl⟩
  · obtain ⟨c, hc, rfl⟩ := exists_escaped hR rfl rfl h
    exact ⟨.escaped c hc, rfl⟩
  · obtain ⟨c, hc, rfl⟩ := exists_digit hR h
    have hother : ∀ c ∈ digitChars, c ∉ metaChars := by simp [digitChars, metaChars]
    exact ⟨.plain c (hother c hc), rfl⟩
  · exact exists_named hR (c := 's') (by decide) h
  · exact exists_named hR (c := 'S') (by decide) h
  · exact exists_named hR (c := 'd') (by decide) h
  · exact exists_named hR (c := 'D') (by decide) h
  · exact exists_named hR (c := 'w') (by decide) h
  · exact exists_named hR (c := 'W') (by decide) h
  · obtain ⟨l, rfl⟩ := hlist w (.inr h)
    exact ⟨.list l, rfl⟩
  · obtain ⟨l, rfl⟩ := hlist w (.inl h)
    exact ⟨.list l, rfl⟩

/-- A base is an atom, or a pattern in parentheses, which is shorter. -/
theorem exists_base
    (hinner : ∀ v : List Char, v.length < w.length → regex.takes R v → ∃ r : Regex, v = r.text)
    (h : base.takes R w) : ∃ b : Base, w = b.text := by
  obtain ⟨q, hq, h⟩ := exists_takes hR
    [char, dot, parens, backref, sourceExpr, numericExpr] rfl h
  simp only [List.mem_cons, List.not_mem_nil, or_false] at hq
  rcases hq with rfl | rfl | rfl | rfl | rfl | rfl
  · obtain ⟨a, rfl⟩ := exists_char hR hlist h
    exact ⟨.atom a, rfl⟩
  · exact ⟨.atom .dot, eq_of_takes_word hR ['.'] rfl h⟩
  · obtain ⟨_, rfl, hu⟩ := splits_lit.1 (splits_of_single hR rfl h)
    obtain ⟨v, _, rfl, hv, hend⟩ := splits_ref.1 hu
    obtain rfl := eq_of_splits_lits [')'] hend
    obtain ⟨r, rfl⟩ := hinner v (by simp only [List.length_cons, List.length_append]; omega) hv
    exact ⟨.group r, rfl⟩
  · obtain ⟨d, hd, rfl⟩ := exists_escaped hR rfl rfl h
    exact ⟨.atom (.backref d hd), rfl⟩
  · obtain ⟨_, rfl, hu⟩ := splits_lit.1 (splits_of_single hR rfl h)
    obtain ⟨_, rfl, hu'⟩ := splits_lit.1 hu
    obtain ⟨v, _, rfl, hv, hw⟩ := splits_ref.1 hu'
    obtain ⟨v', _, rfl, hv', hend⟩ := splits_ref.1 hw
    obtain rfl := eq_of_splits_lits ['}', '}'] hend
    obtain ⟨e, rfl⟩ := exists_exprText hR hv
    obtain ⟨m, rfl⟩ := exists_optText hR hv'
    exact ⟨.atom (.source e m), rfl⟩
  · obtain ⟨_, rfl, hu⟩ := splits_lit.1 (splits_of_single hR rfl h)
    obtain ⟨_, rfl, hu'⟩ := splits_lit.1 hu
    obtain ⟨_, rfl, hu''⟩ := splits_lit.1 hu'
    obtain ⟨v, _, rfl, hv, hw⟩ := splits_ref.1 hu''
    obtain ⟨v', _, rfl, hv', hend⟩ := splits_ref.1 hw
    obtain rfl := eq_of_splits_lits ['}', '}'] hend
    obtain ⟨e, rfl⟩ := exists_exprText hR hv
    obtain ⟨ms, rfl⟩ := exists_numberModifiers hR hv'
    exact ⟨.atom (.numeric e ms), rfl⟩

theorem exists_factor
    (hinner : ∀ v : List Char, v.length < w.length → regex.takes R v → ∃ r : Regex, v = r.text)
    (h : factor.takes R w) : ∃ (b : Base) (xs : List Quantifier),
      w = b.text ++ Quantifier.textAll xs := by
  obtain ⟨v, u, rfl, hv, hu⟩ := splits_ref.1 (splits_of_single hR rfl h)
  have hshorter : v.length ≤ (v ++ u).length := by
    rw [List.length_append]
    omega
  obtain ⟨b, rfl⟩ := exists_base hR hlist (fun v' hlt => hinner v' (hlt.trans_le hshorter)) hv
  obtain ⟨xs, rfl⟩ := exists_items hR Quantifier.text rfl
    (fun _ _ => exists_quantifier hR) Quantifier.text_ne_nil (splits_single_ref.1 hu)
  exact ⟨b, xs, rfl⟩

theorem exists_term
    (hinner : ∀ v : List Char, v.length < w.length → regex.takes R v → ∃ r : Regex, v = r.text)
    (h : term.takes R w) : ∃ t : Term, w = t.text := by
  obtain ⟨items, rfl⟩ := exists_items hR
    (fun f : Base × List Quantifier => f.1.text ++ Quantifier.textAll f.2) rfl
    (fun v hlen hv => by
      obtain ⟨b, xs, rfl⟩ := exists_factor hR hlist (fun v' hlt => hinner v' (hlt.trans_le hlen)) hv
      exact ⟨(b, xs), rfl⟩)
    (fun f => List.append_ne_nil_of_left_ne_nil f.1.text_ne_nil _) h
  clear h hinner
  induction items with
  | nil => exact ⟨.nil, rfl⟩
  | cons f items ih =>
    obtain ⟨t, ht⟩ := ih
    refine ⟨.cons f.1 f.2 t, ?_⟩
    rw [List.flatMap_cons, ht, Term.text, List.append_assoc]

/-- Whatever the start symbol takes is the text of a pattern. -/
theorem exists_regex (h : regex.takes R w) : ∃ r : Regex, w = r.text := by
  induction hn : w.length using Nat.strong_induction_on generalizing w with
  | _ n ih =>
    have hinner {u : List Char} (hlen : u.length ≤ n) (v : List Char) (hlt : v.length < u.length)
        (hv : regex.takes R v) : ∃ r : Regex, v = r.text :=
      ih v.length (hlt.trans_le hlen) hv rfl
    obtain ⟨q, hq, h⟩ := exists_takes hR [term, alternatives] rfl h
    rcases List.mem_pair.1 hq with rfl | rfl
    · obtain ⟨t, rfl⟩ := exists_term hR hlist (hinner hn.le) h
      exact ⟨.term t, rfl⟩
    · obtain ⟨v, _, rfl, hv, hu⟩ := splits_ref.1 (splits_of_single hR rfl h)
      obtain ⟨u, rfl, hr⟩ := splits_lit.1 hu
      simp only [List.length_append, List.length_cons] at hn
      obtain ⟨t, rfl⟩ := exists_term hR hlist (hinner (by omega)) hv
      obtain ⟨r, rfl⟩ := ih u.length (by omega) (splits_single_ref.1 hr) rfl
      exact ⟨.bar t r, rfl⟩

end Unfolding

end Part

end PatternText
