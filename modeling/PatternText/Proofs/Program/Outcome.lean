import PatternText.Proofs.Program.Translation

/-! How compilation ends. An atom makes one step of its own, or fails, and so does a quantifier that has
a step before it; where they stand does not matter. What fails is a bound that can never be met or a
number of places that no word can hold: a digit behind a backslash is always a place, and nothing else is
read as a number. -/

namespace PatternText

open ParseTree PatternText.Part

/-! ### Errors -/

/-- The errors in which the compilation of the tree of a pattern can end. -/
inductive CompileError.Possible (tree : ParseTree) : CompileError → Prop where
  | minimumAboveUpperBound {minimum upperBound : UInt64} {construct : String} :
      Possible tree (.number (.minimumAboveUpperBound minimum upperBound construct))
  | boundsOutOfOrder {construct : String} : Possible tree (.number (.boundsOutOfOrder construct))
  /-- The digits are those of a modifier for a fixed number of places. -/
  | invalidNumber {modifier : ParseTree} {digits : String} (hin : modifier.LiesIn tree)
      (hname : modifier.bears "EXPR_MOD" = true)
      (htext : modifier.text = "fixed(" ++ digits ++ ")")
      (hlarge : UInt64.size ≤ Nat.ofDigitChars 10 digits.toList 0) :
      Possible tree (.number (.invalidNumber digits))
  | tooDeep : Possible tree (.tooDeep nestingLimit)

theorem CompileError.Possible.of_child {name : String} {ts : List ParseTree} {t : ParseTree}
    {e : CompileError} (h : e.Possible t) (ht : t ∈ ts) : e.Possible (.node name ts) := by
  cases h with
  | minimumAboveUpperBound => exact .minimumAboveUpperBound
  | boundsOutOfOrder => exact .boundsOutOfOrder
  | invalidNumber hin hname htext hlarge =>
    exact .invalidNumber (liesIn_node.2 (.inr ⟨t, ht, hin⟩)) hname htext hlarge
  | tooDeep => exact .tooDeep

theorem possible_of_checkConstant {bounds : Bounds} {upperBound : UInt64} {construct : String}
    {cause : NumberError} (h : bounds.checkConstant upperBound construct = .error cause)
    (t : ParseTree) : (CompileError.number cause).Possible t := by
  cases bounds with
  | atLeast least =>
    rw [Bounds.checkConstant] at h
    split at h
    · split at h
      · cases h
        exact .minimumAboveUpperBound
      · cases h
    · cases h
  | between least most =>
    rw [Bounds.checkConstant] at h
    split at h
    · split at h
      · cases h
        exact .boundsOutOfOrder
      · cases h
    · cases h
  | zeroOrMore | zeroOrOne | oneOrMore | exactly _ => cases h

/-! ### Numbers -/

/-- A row of digits is read as the word of its value, unless the value is too large for one. -/
theorem DigitText.readWord?_eq (d : DigitText) : readWord? d.chars =
    if Nat.ofDigitChars 10 d.chars 0 < UInt64.size then
      some (UInt64.ofNat (Nat.ofDigitChars 10 d.chars 0))
    else none := by
  have hdigits := List.all_eq_true.1 (show digitChars.all Char.isDigit = true by decide)
  have hvalid : (!d.chars.isEmpty && d.chars.all Char.isDigit) = true := by
    rw [Bool.and_eq_true, Bool.not_eq_true', List.isEmpty_eq_false_iff, List.all_eq_true]
    exact ⟨d.nonempty, fun c hc => hdigits c (d.allowed c hc)⟩
  have hsign : ∀ rest, d.chars = '+' :: rest → False := by
    intro rest hchars
    have hplus := d.allowed '+' (hchars ▸ List.mem_cons_self)
    simp [digitChars] at hplus
  rw [readWord?, if_pos hvalid]
  exact hsign

theorem isSome_readWord?_digit {d : Char} (hd : d ∈ digitChars) : (readWord? [d]).isSome = true := by
  have hall : digitChars.all (fun d => (readWord? [d]).isSome) = true := by decide
  exact List.all_eq_true.1 hall d hd

theorem NumberModifier.text_tree (m : NumberModifier) : m.tree.text = String.ofList m.text :=
  chars_of_reads (reads_exprMod m : exprMod.reads (m.text ++ []) = _)

theorem NumberModifier.startsWith_fixed (m : NumberModifier)
    (h : m.tree.text.startsWith "fixed(" = true) : ∃ places, m = .fixed places := by
  cases m with
  | fixed places => exact ⟨places, rfl⟩
  | simplify =>
    rw [text_tree, String.startsWith_string_iff, String.toList_ofList] at h
    exact absurd h (by decide)

theorem NumberModifier.text_fixed (places : DigitText) :
    (fixed places).tree.text = "fixed(" ++ String.ofList places.chars ++ ")" := by
  rw [text_tree, text, String.ofList_append, String.ofList_append, String.append_assoc]
  rfl

/-- The number of a modifier is the row of its digits. -/
theorem DigitText.textOf_fixed (places : DigitText) :
    (NumberModifier.fixed places).tree.textOf "NUMBER" = String.ofList places.chars := by
  have hnumber : places.tree.bears number.title = true := by
    obtain ⟨chars, hne, hall⟩ := places
    cases chars with
    | nil => exact absurd rfl hne
    | cons c chars => exact beq_self_eq_true _
  have htext : places.tree.text = String.ofList places.chars :=
    chars_of_reads (reads_number places : number.reads (places.chars ++ [')']) = _)
  rw [← htext]
  exact textOf_behind_leaves (p := exprMod) (by decide) hnumber fixedWord [.leaf (some ')')]

theorem exists_of_foldlM_error {α β ε : Type} {f : β → α → Except ε β} {l : List α} {b : β} {e : ε}
    (h : l.foldlM f b = .error e) : ∃ a ∈ l, ∃ b, f b a = .error e := by
  induction l generalizing b with
  | nil => cases h
  | cons a l ih =>
    rw [List.foldlM_cons] at h
    cases hstep : f b a with
    | error e' =>
      rw [hstep] at h
      cases h
      exact ⟨a, List.mem_cons_self, b, hstep⟩
    | ok b' =>
      rw [hstep] at h
      obtain ⟨a', ha', hfails⟩ := ih h
      exact ⟨a', List.mem_cons_of_mem _ ha', hfails⟩

/-- A format fails only at a number of places that no word can hold. -/
theorem possible_of_numberFormat {p : Part} {cs rest : List Char} {t : ParseTree} {e : CompileError}
    (hread : p.reads cs = some (t, rest)) (h : t.numberFormat = .error e) : e.Possible t := by
  rw [numberFormat] at h
  obtain ⟨u, hu, format, hfails⟩ := exists_of_foldlM_error h
  obtain ⟨hbears, hin⟩ := liesIn_of_mem_findAll hu
  obtain ⟨cs', rest', hread'⟩ := exists_reads_of_bears (q := exprMod) hread hin hbears
  obtain ⟨m, rfl⟩ := exists_modifier_of_reads hread'
  dsimp only at hfails
  split at hfails
  next hfixed =>
    obtain ⟨places, rfl⟩ := m.startsWith_fixed hfixed
    rw [places.textOf_fixed, String.toList_ofList, places.readWord?_eq] at hfails
    by_cases hvalue : Nat.ofDigitChars 10 places.chars 0 < UInt64.size
    · rw [if_pos hvalue] at hfails
      cases hfails
    · rw [if_neg hvalue] at hfails
      cases hfails
      refine .invalidNumber hin hbears (NumberModifier.text_fixed places) ?_
      rw [String.toList_ofList]
      exact Nat.not_lt.1 hvalue
  next =>
    split at hfails <;> cases hfails

/-! ### Single steps -/

section Steps

variable {config : Config}

/-- In every place the tree makes one step of its own, whatever was made before. -/
def MakesStep (config : Config) (t : ParseTree) : Prop :=
  ∀ groups, ∃ step opened, ∀ made, addForest config groups made [t] = .ok (step :: made, opened)

/-- In every place the forest fails, with the same error. -/
def FailsWith (config : Config) (e : CompileError) (ts : List ParseTree) : Prop :=
  ∀ groups made, addForest config groups made ts = .error e

theorem addForest_cons_ok {groups opened : Nat} {made out : List Step} {t : ParseTree}
    (h : addForest config groups made [t] = .ok (out, opened)) (ts : List ParseTree) :
    addForest config groups made (t :: ts) = addForest config opened out ts :=
  addForest_append_ok h

theorem FailsWith.first {e : CompileError} {t : ParseTree} (h : FailsWith config e [t])
    (ts : List ParseTree) : FailsWith config e (t :: ts) := by
  intro groups made
  refine (addForest_append ts groups made [t]).trans ?_
  rw [h groups made]

theorem FailsWith.later {e : CompileError} {t : ParseTree} {ts : List ParseTree}
    (h : FailsWith config e ts) (ht : MakesStep config t) : FailsWith config e (t :: ts) := by
  intro groups made
  obtain ⟨step, opened, hmakes⟩ := ht groups
  rw [addForest_cons_ok (hmakes made), h]

theorem addForest_plain {p : Part} {us : List ParseTree} {c : Construct}
    (hmeaning : p.meaning? = some c) (hoperand : c.isOperand = true) (groups : Nat)
    (made : List Step) : addForest config groups made [p.node us] =
      (Step.addPlain config made (p.node us) c).map fun made => (made, groups) := by
  rw [addForest_construct ((construct?_node p us).trans hmeaning),
    addConstruct_plain (by rintro rfl; cases hoperand) (by rintro rfl; cases hoperand)]
  cases Step.addPlain config made (p.node us) c with
  | error e => rfl
  | ok out => exact addForest.eq_1 _ _ _

/-- An operand that makes its step in one place makes it in every place. -/
theorem makesStep_of_addPlain {p : Part} {us : List ParseTree} {c : Construct} {made out : List Step}
    (hmeaning : p.meaning? = some c) (hoperand : c.isOperand = true)
    (h : Step.addPlain config made (p.node us) c = .ok out) : MakesStep config (p.node us) := by
  intro groups
  cases Step.makes_of_addPlain h with
  | @simple step _ hall =>
    refine ⟨step, groups, fun made => ?_⟩
    rw [addForest_plain hmeaning hoperand, hall]
    rfl
  | nothing hother | repetition hother =>
    rw [hoperand] at hother
    cases hother

theorem MakesStep.passedOver {p : Part} (hp : p ∈ passedOver) {t : ParseTree}
    (h : MakesStep config t) : MakesStep config (p.node [t]) := by
  intro groups
  obtain ⟨step, opened, hmakes⟩ := h groups
  exact ⟨step, opened, fun made => (addForest_passedOver hp).trans (hmakes made)⟩

/-- The constructs that make a step of any tree. -/
def Construct.readsNoNumber : Construct → Bool
  | literal | escaped | anyOf _ | inclusiveList | exclusiveList | source => true
  | _ => false

theorem exists_addPlain {c : Construct} (hc : c.readsNoNumber = true) (t : ParseTree) :
    c.isOperand = true ∧ ∃ out, Step.addPlain config [] t c = .ok out := by
  cases c with
  | literal | escaped | anyOf _ | inclusiveList | exclusiveList | source => exact ⟨rfl, _, rfl⟩
  | group | backref | numeric | zeroOrMore | zeroOrOne | oneOrMore | exactly | atLeast | between
  | alternatives => cases hc

theorem makesStep_plainPart {p : Part} (hp : p ∈ plainParts) (us : List ParseTree) :
    MakesStep config (p.node us) := by
  have hall : ∀ p ∈ plainParts, p.meaning?.any Construct.readsNoNumber = true := by decide
  obtain ⟨c, hmeaning, hc⟩ := (Option.any_eq_true _ _).1 (hall p hp)
  obtain ⟨hoperand, out, hplain⟩ := exists_addPlain hc (p.node us)
  exact makesStep_of_addPlain hmeaning hoperand hplain

theorem makesStep_backref {d : Char} (hd : d ∈ digitChars) :
    MakesStep config (Part.backref.node [.leaf (some '\\'), Part.digit.node [.leaf (some d)]]) := by
  have hdigit : (Part.backref.node [.leaf (some '\\'), Part.digit.node [.leaf (some d)]]).textOf
      "DIGIT" = String.ofList [d] := textOf_behind_backslash (q := .digit) (by decide) d
  obtain ⟨place, hplace⟩ := Option.isSome_iff_exists.1 (isSome_readWord?_digit hd)
  have hplain : Step.addPlain config []
      (Part.backref.node [.leaf (some '\\'), Part.digit.node [.leaf (some d)]]) .backref =
      .ok [.backref place] := by
    rw [Step.addPlain, hdigit, String.toList_ofList, hplace]
  exact makesStep_of_addPlain rfl rfl hplain

theorem numeric_outcome {us : List ParseTree} {cs rest : List Char}
    (hread : numericExpr.reads cs = some (numericExpr.node us, rest)) :
    MakesStep config (numericExpr.node us) ∨
      ∃ e, e.Possible (numericExpr.node us) ∧ FailsWith config e [numericExpr.node us] := by
  have hplain (made : List Step) : Step.addPlain config made (numericExpr.node us) .numeric =
      (numericExpr.node us).numberFormat.map fun format =>
        .numeric ((numericExpr.node us).expressions.headD default) format :: made :=
    Step.addPlain_numeric made
  cases hformat : (numericExpr.node us).numberFormat with
  | ok format =>
    rw [hformat] at hplain
    exact .inl (makesStep_of_addPlain rfl rfl (hplain []))
  | error e =>
    refine .inr ⟨e, possible_of_numberFormat hread hformat, fun groups made => ?_⟩
    rw [addForest_plain rfl rfl, hplain, hformat]
    rfl

/-- An atom makes one step, unless it is a number with too many places. -/
theorem Atom.outcome (config : Config) (a : Atom) : MakesStep config (Base.atom a).tree ∨
    ∃ e, e.Possible (Base.atom a).tree ∧ FailsWith config e [(Base.atom a).tree] := by
  rw [Base.tree]
  obtain ⟨p, hp, us, hinner | hinner⟩ | ⟨d, hd, rfl⟩ | ⟨value, modifiers, rfl⟩ := a.inner_cases
  · rw [hinner]
    exact .inl ((makesStep_plainPart hp us).passedOver (by decide))
  · rw [hinner]
    exact .inl (((makesStep_plainPart hp us).passedOver (by decide)).passedOver (by decide))
  · exact .inl ((makesStep_backref hd).passedOver (by decide))
  · have hread : numericExpr.reads ((Atom.numeric value modifiers).text ++ []) = _ :=
      reads_numericExpr value modifiers
    rcases numeric_outcome hread with hmakes | ⟨e, hpossible, hfails⟩
    · exact .inl (hmakes.passedOver (by decide))
    · refine .inr ⟨e, hpossible.of_child (List.mem_singleton_self _), fun groups made => ?_⟩
      rw [addForest_passedOver (by decide)]
      exact hfails groups made

/-- A quantifier puts the step before it into one repetition, unless its bounds can never be met. -/
theorem Quantifier.outcome (config : Config) (x : Quantifier) :
    (∀ groups step made, addForest config groups (step :: made) [x.tree] =
      .ok (.repetition step x.bounds x.toString :: made, groups)) ∨
    ∃ e, e.Possible x.tree ∧ FailsWith config e [x.tree] := by
  cases hcheck : x.bounds.checkConstant config.upperBound x.toString with
  | ok u =>
    refine .inl fun groups step made => ?_
    rw [addForest_quantifier, Step.repeatCounted, hcheck]
    exact addForest.eq_1 _ _ _
  | error cause =>
    refine .inr ⟨.number cause, possible_of_checkConstant hcheck x.tree, fun groups made => ?_⟩
    rw [addForest_quantifier, Step.repeatCounted, hcheck]

end Steps

end PatternText
