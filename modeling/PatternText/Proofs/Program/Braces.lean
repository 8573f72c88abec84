import PatternText.Proofs.Program.Compose
import PatternText.Proofs.Program.Outcome

/-! Constructs in braces. What stands in braces is an expression, which reaches the step as it is
written, whatever brackets, parentheses and points it holds. The modifiers behind it add up: of several
numbers of places the last one counts, and a number is simplified if any modifier says so. -/

namespace PatternText

open ParseTree PatternText.Part

/-! ### Expressions in constructs -/

/-- The parts below an expression. -/
def exprParts : List Part := [.expression, .exprChars, .exprChar, .digit, .dot]

theorem ExprText.lacks_tree (e : ExprText) {q : Part} (hq : q ∉ exprParts) :
    Lacks q.title [e.tree] :=
  lacks_of_reads (by decide +kernel) (by decide) hq
    (reads_expression e (rfl : Grammar.beginsIn [.oneOf exprEnds] ['}'] = true))

theorem FirstModifier.lacks_optTree (m : Option FirstModifier) :
    Lacks "EXPRESSION" [FirstModifier.optTree m] := by
  have hclosed : closed [.optBackrefMod, .backrefMod, .backrefModFirst, .backrefModMinFirst] = true := by
    decide +kernel
  have hread : optBackrefMod.reads (optText m ++ ['}']) = some (optTree m, ['}']) :=
    reads_optBackrefMod m
  exact lacks_of_reads (q := .expression) hclosed (by decide) (by decide) hread

theorem NumberModifier.lacks_treeAll (ms : List NumberModifier) :
    Lacks "EXPRESSION" [NumberModifier.treeAll ms] := by
  have hclosed : closed [.optExprMods, .exprMod, .number, .digits, .digit] = true := by decide +kernel
  have hread : optExprMods.reads (textAll ms ++ ['}']) = some (treeAll ms, ['}']) :=
    reads_optExprMods ms
  exact lacks_of_reads (q := .expression) hclosed (by decide) (by decide) hread

variable {p q : Part}

section Constructs

variable {e : ExprText} {modifiers : ParseTree} (front back : List Char)

/-- The expression of a construct is the only one in its tree. -/
theorem expressions_node (hp : p ≠ .expression) (hmodifiers : Lacks "EXPRESSION" [modifiers]) :
    (p.node (leaves front ++ [e.tree, modifiers] ++ leaves back)).expressions = [e.expression] := by
  have hother : (p.node (leaves front ++ [e.tree, modifiers] ++ leaves back)).bears "EXPRESSION" =
      false := bears_eq_false (q := .expression) hp _
  have hback : Lacks "EXPRESSION" ([modifiers] ++ leaves back) :=
    List.forall_mem_append.2 ⟨hmodifiers, lacks_leaves _ back⟩
  have hfound : collectNamed "EXPRESSION" #[]
      [p.node (leaves front ++ [e.tree, modifiers] ++ leaves back)] = #[e.tree] := by
    rw [collectNamed_passes hother, List.append_nil]
    show collectNamed "EXPRESSION" #[] (leaves front ++ [e.tree, modifiers] ++ leaves back) = _
    rw [List.append_assoc, collectNamed_append, collectNamed_of_lacks (lacks_leaves _ front),
      List.cons_append, collectNamed_bears e.bears_tree]
    exact collectNamed_of_lacks hback _
  rw [expressions, findAll, hfound, List.map_singleton, e.text_tree]
  rfl

/-- What lies in no expression is looked for in the modifiers alone. -/
theorem findFirst_node (hp : p ≠ q) (hq : q ∉ exprParts) :
    (p.node (leaves front ++ [e.tree, modifiers] ++ leaves back)).findFirst q.title =
      modifiers.findFirst q.title := by
  have hfront : Lacks q.title (leaves front ++ [e.tree]) :=
    List.forall_mem_append.2 ⟨lacks_leaves _ front, e.lacks_tree hq⟩
  rw [findFirst, firstNamed_passes (bears_eq_false hp _), List.append_nil]
  show firstNamed q.title (leaves front ++ ([e.tree] ++ [modifiers]) ++ leaves back) = _
  rw [← List.append_assoc, firstNamed_append, firstNamed_append, firstNamed_of_lacks hfront,
    firstNamed_of_lacks (lacks_leaves _ back), Option.none_or, Option.or_none, findFirst]

/-- The modifiers of a construct are collected alone as well. -/
theorem findAll_node (hp : p ≠ q) (hq : q ∉ exprParts) :
    (p.node (leaves front ++ [e.tree, modifiers] ++ leaves back)).findAll q.title =
      modifiers.findAll q.title := by
  have hfront : Lacks q.title (leaves front ++ [e.tree]) :=
    List.forall_mem_append.2 ⟨lacks_leaves _ front, e.lacks_tree hq⟩
  rw [findAll, collectNamed_passes (bears_eq_false hp _), List.append_nil]
  show (collectNamed q.title #[] (leaves front ++ ([e.tree] ++ [modifiers]) ++ leaves back)).toList = _
  rw [← List.append_assoc, collectNamed_append, collectNamed_append, collectNamed_of_lacks hfront,
    collectNamed_of_lacks (lacks_leaves _ back), findAll]

end Constructs

/-! ### Source references -/

theorem firstNamed_node (hne : p ≠ q) (us : List ParseTree) :
    firstNamed q.title [p.node us] = firstNamed q.title us := by
  rw [firstNamed_passes (bears_eq_false hne us), List.append_nil]
  rfl

/-- Behind a colon stands the word of one of the modifiers. -/
theorem isSome_findFirst_word (hopt : optBackrefMod ≠ q) (hmod : backrefMod ≠ q) (word : List Char) :
    ((optBackrefMod.node [.leaf (some ':'), backrefMod.node [p.node (leaves word)]]).findFirst
      q.title).isSome = decide (p = q) := by
  rw [findFirst, firstNamed_node hopt, firstNamed_leaf, firstNamed_node hmod]
  by_cases hp : p = q
  · rw [decide_eq_true hp, hp, firstNamed_bears (beq_self_eq_true _)]
    rfl
  · rw [decide_eq_false hp, firstNamed_node hp, firstNamed_of_lacks (lacks_leaves _ word)]
    rfl

theorem FirstModifier.firstModifier?_inner (e : ExprText) (m : Option FirstModifier) :
    (Atom.source e m).inner.firstModifier? = m := by
  have hfirst : (Atom.source e m).inner.findFirst "BACKREF_MOD_FIRST" =
      (optTree m).findFirst Part.backrefModFirst.title :=
    findFirst_node (q := .backrefModFirst) ['{', '{'] ['}', '}'] (by decide) (by decide)
  have hminus : (Atom.source e m).inner.findFirst "BACKREF_MOD_MIN_FIRST" =
      (optTree m).findFirst Part.backrefModMinFirst.title :=
    findFirst_node (q := .backrefModMinFirst) ['{', '{'] ['}', '}'] (by decide) (by decide)
  rw [firstModifier?, hfirst, hminus]
  rcases m with _ | _ | _
  · rw [optTree, findFirst, findFirst, firstNamed_node (by decide), firstNamed_node (by decide),
      firstNamed_leaf, firstNamed_leaf, firstNamed, firstNamed]
    rfl
  · rw [optTree, isSome_findFirst_word (by decide) (by decide)]
    rfl
  · rw [optTree, isSome_findFirst_word (by decide) (by decide),
      isSome_findFirst_word (by decide) (by decide)]
    rfl

variable {config : Config}

/-- A source reference makes one step with its expression, its modifier and its whole text. -/
theorem Program.ofText_source (e : ExprText) (m : Option FirstModifier) :
    ofText config (String.ofList (Atom.source e m).text) =
      .ok ⟨[.source e.expression m (String.ofList (Atom.source e m).text)], 0⟩ := by
  have hread : sourceExpr.reads ((Atom.source e m).text ++ []) = some ((Atom.source e m).inner, []) :=
    reads_sourceExpr e m
  have htext : (Atom.source e m).inner.text = String.ofList (Atom.source e m).text :=
    chars_of_reads hread
  have hexpressions : (Atom.source e m).inner.expressions = [e.expression] :=
    expressions_node ['{', '{'] ['}', '}'] (by decide) (FirstModifier.lacks_optTree m)
  have hmodifier := FirstModifier.firstModifier?_inner e m
  refine ofText_atom (.source e m) rfl ?_
  rw [Atom.inner] at htext hexpressions hmodifier ⊢
  rw [addForest_plain rfl rfl, Step.addPlain, htext, hexpressions, hmodifier]
  rfl

/-! ### Computed numbers -/

namespace NumberModifier

/-- The number of places that the modifier asks for. -/
def places? : NumberModifier → Option UInt64
  | fixed places => some (UInt64.ofNat (Nat.ofDigitChars 10 places.chars 0))
  | simplify => none

def isSimplify : NumberModifier → Bool
  | fixed _ => false
  | simplify => true

/-- The number of places is none that a word cannot hold. -/
def Fits : NumberModifier → Prop
  | fixed places => Nat.ofDigitChars 10 places.chars 0 < UInt64.size
  | simplify => True

/-- The format once the modifier is added to it. -/
def added (format : NumberFormat) : NumberModifier → NumberFormat
  | m@(fixed _) => { format with places := m.places? }
  | simplify => { format with simplify := true }

/-- Of several modifiers the last number of places counts, and any of them simplifies. -/
theorem foldl_added (ms : List NumberModifier) (format : NumberFormat) :
    ms.foldl added format =
      ⟨(ms.filterMap places?).getLast?.or format.places, format.simplify || ms.any isSimplify⟩ := by
  induction ms generalizing format with
  | nil => simp
  | cons m ms ih =>
    rw [List.foldl_cons, ih]
    cases m with
    | fixed places =>
      rw [added, List.filterMap_cons_some (rfl : places? (fixed places) = some _), List.getLast?_cons]
      cases (ms.filterMap places?).getLast? <;> rfl
    | simplify =>
      rw [added, List.filterMap_cons_none rfl, List.any_cons, isSimplify, Bool.true_or, Bool.or_true]

theorem bears_tree (m : NumberModifier) : m.tree.bears Part.exprMod.title = true := by
  cases m <;> exact beq_self_eq_true _

theorem collectNamed_treeAll (ms : List NumberModifier) (found : Array ParseTree) :
    collectNamed Part.exprMod.title found [treeAll ms] = found ++ (ms.map tree).toArray := by
  have hother (found : Array ParseTree) (us : List ParseTree) :
      collectNamed Part.exprMod.title found [Part.optExprMods.node us] =
        collectNamed Part.exprMod.title found us := by
    rw [collectNamed_passes (bears_eq_false (by decide) us), List.append_nil]
    rfl
  induction ms generalizing found with
  | nil =>
    rw [treeAll, hother, collectNamed_leaf, collectNamed]
    simp
  | cons m ms ih =>
    rw [treeAll, hother, collectNamed_leaf, collectNamed_bears m.bears_tree, ih]
    simp

/-- The format of modifiers is that of adding them one by one. -/
theorem numberFormat_of_findAll {t : ParseTree} {ms : List NumberModifier}
    (h : t.findAll "EXPR_MOD" = ms.map tree) (hfits : ∀ m ∈ ms, m.Fits) :
    t.numberFormat = .ok (ms.foldl added {}) := by
  rw [numberFormat, h, List.foldlM_map]
  generalize ({} : NumberFormat) = format
  clear h
  induction ms generalizing format with
  | nil => rfl
  | cons m ms ih =>
    obtain ⟨hm, hrest⟩ := List.forall_mem_cons.1 hfits
    rw [List.foldlM_cons, List.foldl_cons]
    cases m with
    | fixed places =>
      have hfixed : (fixed places).tree.text.startsWith "fixed(" = true := by
        rw [text_fixed, String.startsWith_string_iff, String.append_assoc, String.toList_append]
        exact List.prefix_append _ _
      have hvalue : Nat.ofDigitChars 10 places.chars 0 < UInt64.size := hm
      have hread : readWord? ((fixed places).tree.textOf "NUMBER").toList = (fixed places).places? := by
        rw [places.textOf_fixed, String.toList_ofList, places.readWord?_eq, if_pos hvalue]
        rfl
      rw [if_pos hfixed]
      simp only [hread]
      exact ih hrest _
    | simplify =>
      have htext : simplify.tree.text = "simplify" := simplify.text_tree
      have hother : ¬"simplify".startsWith "fixed(" = true := by
        rw [String.startsWith_string_iff]
        decide
      rw [htext, if_neg hother, if_pos (beq_self_eq_true _)]
      exact ih hrest _

end NumberModifier

/-- A computed number makes one step with its expression and the format of its modifiers. -/
theorem Program.ofText_numeric (e : ExprText) {ms : List NumberModifier}
    (hfits : ∀ m ∈ ms, m.Fits) :
    ofText config (String.ofList (Atom.numeric e ms).text) =
      .ok ⟨[.numeric e.expression
        ⟨(ms.filterMap NumberModifier.places?).getLast?, ms.any NumberModifier.isSimplify⟩], 0⟩ := by
  have hexpressions : (Atom.numeric e ms).inner.expressions = [e.expression] :=
    expressions_node ['{', '{', '='] ['}', '}'] (by decide) (NumberModifier.lacks_treeAll ms)
  have hmodifiers : (Atom.numeric e ms).inner.findAll "EXPR_MOD" = ms.map NumberModifier.tree := by
    refine (findAll_node (q := .exprMod) ['{', '{', '='] ['}', '}'] (by decide) (by decide)).trans ?_
    rw [findAll, NumberModifier.collectNamed_treeAll]
    simp
  have hformat := NumberModifier.numberFormat_of_findAll hmodifiers hfits
  rw [NumberModifier.foldl_added, Option.or_none, Bool.false_or] at hformat
  refine ofText_atom (.numeric e ms) rfl ?_
  rw [Atom.inner] at hexpressions hformat ⊢
  rw [addForest_plain rfl rfl, Step.addPlain_numeric, hexpressions, hformat]
  rfl

/-! ### Texts in braces -/

/-- The text of an expression. -/
def ExprText.toString (e : ExprText) : String := String.ofList e.chars

/-- The ways to modify a source reference, by what is written behind its expression. -/
def sourceModifiers : List (String × Option FirstModifier) :=
  [("", none), (":first", some .first), (":-first", some .minusFirst)]

/-- The text of modifiers of a computed number, each behind a colon. -/
def NumberModifier.texts (ms : List NumberModifier) : String :=
  String.join (ms.map fun
    | fixed places => ":fixed(" ++ String.ofList places.chars ++ ")"
    | simplify => ":simplify")

theorem NumberModifier.toList_texts (ms : List NumberModifier) : (texts ms).toList = textAll ms := by
  induction ms with
  | nil => rfl
  | cons m ms ih =>
    rw [texts, List.map_cons, String.join_cons, String.toList_append, ← texts, ih, textAll, textAll,
      List.flatMap_cons]
    cases m with
    | fixed places =>
      have htext : (":fixed(" ++ String.ofList places.chars ++ ")").toList =
          ':' :: (fixed places).text := by
        simp [text, fixedWord]
      exact congrArg (· ++ _) htext
    | simplify => rfl

/-- The counted quantifiers of two expressions, with the bounds that they stand for. -/
def countedQuantifiers (e f : ExprText) : List (String × Bounds) :=
  [("\x7b" ++ e.toString ++ "\x7d", .exactly e.expression),
    ("\x7b" ++ e.toString ++ ",\x7d", .atLeast e.expression),
    ("\x7b" ++ e.toString ++ "," ++ f.toString ++ "\x7d", .between e.expression f.expression)]

theorem exists_quantifier_of_counted {e f : ExprText} {x : String × Bounds}
    (hx : x ∈ countedQuantifiers e f) : ∃ q : Quantifier, x = (q.toString, q.bounds) := by
  simp only [countedQuantifiers, List.mem_cons, List.not_mem_nil, or_false] at hx
  rcases hx with rfl | rfl | rfl
  · refine ⟨.exactly e, Prod.ext ?_ rfl⟩
    simp [← String.toList_inj, ExprText.toString, Quantifier.toString, Quantifier.text]
  · refine ⟨.atLeast e, Prod.ext ?_ rfl⟩
    simp [← String.toList_inj, ExprText.toString, Quantifier.toString, Quantifier.text]
  · refine ⟨.between e f, Prod.ext ?_ rfl⟩
    simp [← String.toList_inj, ExprText.toString, Quantifier.toString, Quantifier.text]

/-- Constructs in braces reach their steps as they are written. A source reference keeps its expression,
its modifier and its whole text, a computed number its expression with the last number of places and
whether any modifier simplifies, and a counted quantifier repeats the step of the factor before it with
the expressions as its bounds, unless these can never be met or the steps nest too deeply. All patterns
but those that are too long to be parsed at all are compiled in this way. -/
theorem braces_verbatim (config : Config) (e f : ExprText) :
    (∀ x ∈ sourceModifiers,
      let text := "\x7b\x7b" ++ e.toString ++ x.1 ++ "\x7d\x7d"
      Program.ofText config text = .ok ⟨[.source (.ofText e.toString) x.2 text], 0⟩) ∧
    (∀ ms : List NumberModifier, (∀ m ∈ ms, m.Fits) →
      Program.ofText config ("\x7b\x7b=" ++ e.toString ++ NumberModifier.texts ms ++ "\x7d\x7d") =
        .ok ⟨[.numeric (.ofText e.toString)
          ⟨(ms.filterMap NumberModifier.places?).getLast?, ms.any NumberModifier.isSimplify⟩], 0⟩) ∧
    (∀ (p : String) (P : Program), IsFactor p → Program.ofText config p = .ok P →
      ∃ step, P.steps = [step] ∧ ∀ x ∈ countedQuantifiers e f,
        Program.ofText config (p ++ x.1) =
          match x.2.checkConstant config.upperBound x.1 with
          | .ok () => Program.limited ⟨[.repetition step x.2 x.1], P.groupCount⟩
          | .error cause => .error (.number cause)) ∧
    ∀ text : String, text.utf8ByteSize ≤ patternLimit →
      Program.ofPattern config text = Program.ofText config text := by
  refine ⟨fun x hx => ?_, fun ms hfits => ?_, fun p P hfactor hp => ?_, fun text hshort => ?_⟩
  · have hsource (m : Option FirstModifier) (word : String)
        (hword : word.toList = FirstModifier.optText m) :
        "\x7b\x7b" ++ e.toString ++ word ++ "\x7d\x7d" = String.ofList (Atom.source e m).text := by
      simp [← String.toList_inj, ExprText.toString, Atom.text, hword]
    simp only [sourceModifiers, List.mem_cons, List.not_mem_nil, or_false] at hx
    rcases hx with rfl | rfl | rfl
    · rw [hsource none "" rfl]
      exact Program.ofText_source e none
    · rw [hsource (some .first) ":first" rfl]
      exact Program.ofText_source e (some .first)
    · rw [hsource (some .minusFirst) ":-first" rfl]
      exact Program.ofText_source e (some .minusFirst)
  · have htext : "\x7b\x7b=" ++ e.toString ++ NumberModifier.texts ms ++ "\x7d\x7d" =
        String.ofList (Atom.numeric e ms).text := by
      simp [← String.toList_inj, ExprText.toString, Atom.text, NumberModifier.toList_texts]
    rw [htext]
    exact Program.ofText_numeric e hfits
  · obtain ⟨step, hsteps, hrepeated⟩ := Program.ofText_repeated hp hfactor
    refine ⟨step, hsteps, fun x hx => ?_⟩
    obtain ⟨q, rfl⟩ := exists_quantifier_of_counted hx
    exact hrepeated q
  · rw [Program.ofPattern_eq, if_neg (Nat.not_lt.2 hshort)]

/-- The index of the range. -/
def rangeIndex : ExprText := ⟨['S'], by decide, List.forall_mem_singleton.2 (by decide)⟩

/-- Two numbers of places and a simplification between them. -/
def placesTwice : List NumberModifier :=
  [.fixed ⟨['2'], by decide, List.forall_mem_singleton.2 (by decide)⟩, .simplify,
    .fixed ⟨['1', '0'], by decide,
      List.forall_mem_cons.2 ⟨by decide, List.forall_mem_singleton.2 (by decide)⟩⟩]

theorem rangeIndex_verbatim :
    ("", none) ∈ sourceModifiers ∧
    Program.ofText (.ofSettings {}) "{{S}}" =
      .ok ⟨[.source (.ofText "S") none "{{S}}"], 0⟩ ∧
    "{{S}}".utf8ByteSize ≤ patternLimit ∧
    Program.ofPattern (.ofSettings {}) "{{S}}" =
      .ok ⟨[.source (.ofText "S") none "{{S}}"], 0⟩ ∧
    (∀ m ∈ placesTwice, m.Fits) ∧
    Program.ofText (.ofSettings {}) "{{=S:fixed(2):simplify:fixed(10)}}" =
      .ok ⟨[.numeric (.ofText "S") ⟨some 10, true⟩], 0⟩ ∧
    IsFactor "b" ∧ Program.ofText (.ofSettings {}) "b" = .ok ⟨[.literal "b"], 0⟩ ∧
    ("{S}", .exactly (.ofText "S")) ∈ countedQuantifiers rangeIndex rangeIndex ∧
    Program.ofText (.ofSettings {}) "b{S}" =
      .ok ⟨[.repetition (.literal "b") (.exactly (.ofText "S")) "{S}"], 0⟩ := by
  have hfits : ∀ m ∈ placesTwice, m.Fits := by
    intro m hm
    simp only [placesTwice, List.mem_cons, List.not_mem_nil, or_false] at hm
    rcases hm with rfl | rfl | rfl
    · show Nat.ofDigitChars 10 ['2'] 0 < UInt64.size
      decide
    · trivial
    · show Nat.ofDigitChars 10 ['1', '0'] 0 < UInt64.size
      decide
  have hfactor : IsFactor "b" := isFactor_base (.atom (.plain 'b' (by decide)))
  have hletter : Program.ofText (.ofSettings {}) "b" = .ok ⟨[.literal "b"], 0⟩ :=
    Program.ofText_plain (c := 'b') (by decide)
  have hquantifier : "\x7b" ++ rangeIndex.toString ++ "\x7d" = "{S}" := by decide +kernel
  obtain ⟨hsource, hnumeric, hcounted, hshort⟩ := braces_verbatim (.ofSettings {}) rangeIndex rangeIndex
  obtain ⟨step, hsteps, hrepeated⟩ := hcounted "b" _ hfactor hletter
  obtain rfl := List.singleton_inj.1 hsteps
  have hreference : Program.ofText (.ofSettings {}) "{{S}}" =
      .ok ⟨[.source (.ofText "S") none "{{S}}"], 0⟩ := by
    have hstep := hsource ("", none) List.mem_cons_self
    have htext : "\x7b\x7b" ++ rangeIndex.toString ++ "" ++ "\x7d\x7d" = "{{S}}" := by
      decide +kernel
    rw [htext] at hstep
    exact hstep
  have hlimit : "{{S}}".utf8ByteSize ≤ patternLimit := by decide +kernel
  refine ⟨List.mem_cons_self, hreference, hlimit, (hshort _ hlimit).trans hreference, hfits, ?_, hfactor,
    hletter, ?_, ?_⟩
  · have hstep := hnumeric _ hfits
    have htext : "\x7b\x7b=" ++ rangeIndex.toString ++ NumberModifier.texts placesTwice ++
        "\x7d\x7d" = "{{=S:fixed(2):simplify:fixed(10)}}" := by
      decide +kernel
    rw [htext] at hstep
    exact hstep
  · rw [← hquantifier]
    exact List.mem_cons_self
  · have hstep := hrepeated _ List.mem_cons_self
    rw [hquantifier] at hstep
    have htext : "b" ++ "{S}" = "b{S}" := by decide +kernel
    rw [htext] at hstep
    exact hstep.trans (Program.limited_of_le (by decide))

end PatternText
