import PatternText.Proofs.Program.Translation

/-! Patterns put together. The program of a longer pattern is made of the programs of the patterns it
consists of: rows follow one another, bars collect branches, parentheses make a group and a quantifier
repeats a single factor. Only the numbers of groups move, by the count of those that open before, and
only the nesting can come to exceed its limit. -/

namespace PatternText

/-- The program, unless it nests too deeply. -/
def Program.limited (program : Program) : Except CompileError Program :=
  if nestingLimit < program.depth then .error (.tooDeep nestingLimit) else .ok program

/-- The program of a pattern of any length. -/
def Program.ofText (config : Config) (pattern : String) : Except CompileError Program :=
  match parse patternGrammar pattern with
  | .ok tree => ofTree config tree
  | .error e => .error (.parse e)

theorem Program.ofPattern_eq (config : Config) (pattern : String) :
    ofPattern config pattern =
      if patternLimit < pattern.utf8ByteSize then
        .error (.tooLong pattern.utf8ByteSize patternLimit)
      else ofText config pattern := by
  rw [ofPattern, patternTree, ofText]
  by_cases hlong : patternLimit < pattern.utf8ByteSize
  · rw [if_pos hlong, if_pos hlong]
  · rw [if_neg hlong, if_neg hlong]
    cases parse patternGrammar pattern <;> rfl

/-- The text is a pattern. -/
def Parses (text : String) : Prop := ∃ tree, parse patternGrammar text = .ok tree

/-- The pattern is two patterns with a bar between them. -/
def TopLevelBar (pattern : String) : Prop :=
  ∃ left right, pattern = left ++ "|" ++ right ∧ Parses left ∧ Parses right

/-- The pattern is a single base with its quantifiers: the longest match of a factor takes all of it. -/
def IsFactor (pattern : String) : Prop :=
  ∃ tree, Part.factor.reads pattern.toList = some (tree, [])

/-- A factor is a base with its quantifiers. -/
theorem exists_factor_of_isFactor {pattern : String} (h : IsFactor pattern) :
    ∃ (b : Base) (xs : List Quantifier),
      pattern = String.ofList (Regex.term (.cons b xs .nil)).text := by
  obtain ⟨tree, hread⟩ := h
  have hR := Grammar.unfolds_takes_longest patternGrammar_not_leftRecursive
  have htakes : Part.factor.takes (Grammar.Takes patternGrammar.longest) pattern.toList :=
    ⟨tree, [], by rw [List.append_nil]; exact hread⟩
  obtain ⟨b, xs, hpattern⟩ := Part.exists_factor hR (fun _ => Part.exists_list_of_longest)
    (fun _ _ => Part.exists_regex hR fun _ => Part.exists_list_of_longest) htakes
  refine ⟨b, xs, ?_⟩
  rw [← String.toList_inj, String.toList_ofList, hpattern, Regex.text, Term.text, Term.text,
    List.append_nil]

theorem isFactor_base (b : Base) : IsFactor (String.ofList b.text) := by
  have hread := Part.reads_factor [] (Part.reads_base b) (Part.reads_nil_eq_none (by decide))
  rw [Quantifier.textAll, List.flatMap_nil, List.append_nil, List.append_nil] at hread
  refine ⟨factorTree b.tree [], ?_⟩
  rw [String.toList_ofList]
  exact hread

/-! ### Syntax put together -/

/-- One row after the other. -/
def Term.append : Term → Term → Term
  | .nil, u => u
  | .cons b xs t, u => .cons b xs (t.append u)

theorem Term.text_append (t u : Term) : (t.append u).text = t.text ++ u.text := by
  cases t with
  | nil => rfl
  | cons b xs t => rw [append, text, text, text_append t u, List.append_assoc, List.append_assoc]

theorem Term.factors_append (t u : Term) : (t.append u).factors = t.factors ++ u.factors := by
  cases t with
  | nil => rfl
  | cons b xs t => rw [append, factors, factors, factors_append t u, List.cons_append]

/-- Two patterns with a bar between them. -/
def Regex.join : Regex → Regex → Regex
  | .term t, s => .bar t s
  | .bar t r, s => .bar t (r.join s)

theorem Regex.text_join (r s : Regex) : (r.join s).text = r.text ++ '|' :: s.text := by
  cases r with
  | term t => rfl
  | bar t r => rw [join, text, text, text_join r s, List.append_assoc, List.cons_append]

theorem Regex.ofList_join (r s : Regex) :
    String.ofList (r.join s).text = String.ofList r.text ++ "|" ++ String.ofList s.text := by
  rw [text_join, ← List.singleton_append, String.ofList_append, String.ofList_append,
    String.append_assoc]

theorem Regex.rows_join (r s : Regex) : (r.join s).rows = r.rows ++ s.rows := by
  cases r with
  | term t => rfl
  | bar t r => rw [join, rows, rows, rows_join r s, List.cons_append]

theorem Regex.exists_join_eq_bar (r s : Regex) : ∃ t u, r.join s = .bar t u := by
  cases r with
  | term t => exact ⟨t, s, rfl⟩
  | bar t r => exact ⟨t, r.join s, rfl⟩

/-! ### Programs of syntax -/

namespace Program

variable {config : Config}

theorem limited_of_le {program : Program} (h : program.depth ≤ nestingLimit) :
    limited program = .ok program :=
  if_neg (Nat.not_lt.2 h)

theorem ofText_regex (r : Regex) : ofText config (String.ofList r.text) = ofTree config r.tree := by
  rw [ofText, parse_regex]

theorem ofText_of_forest {r : Regex} {made : List Step} {groupCount : Nat}
    (h : ParseTree.addForest config 0 [] [r.tree] = .ok (made, groupCount)) :
    ofText config (String.ofList r.text) = limited ⟨made.reverse, groupCount⟩ := by
  rw [ofText_regex, ofTree, h]
  rfl

theorem exists_regex_of_ofText {pattern : String} {program : Program}
    (h : ofText config pattern = .ok program) :
    ∃ (r : Regex) (made : List Step), pattern = String.ofList r.text ∧
      ParseTree.addForest config 0 [] [r.tree] = .ok (made, program.groupCount) ∧
      program.steps = made.reverse ∧ program.depth ≤ nestingLimit := by
  rw [ofText] at h
  cases hparse : parse patternGrammar pattern with
  | error e =>
    rw [hparse] at h
    cases h
  | ok tree =>
    obtain ⟨r, hr, rfl⟩ := parse_eq_ok_iff_regex.1 hparse
    rw [hparse] at h
    dsimp only at h
    rw [ofTree] at h
    cases hforest : ParseTree.addForest config 0 [] [r.tree] with
    | error e =>
      rw [hforest] at h
      cases h
    | ok m =>
      rw [hforest] at h
      dsimp only at h
      by_cases hdeep : nestingLimit < depth ⟨m.1.reverse, m.2⟩
      · rw [if_pos hdeep] at h
        cases h
      · rw [if_neg hdeep] at h
        cases h
        exact ⟨r, m.1, by rw [← hr, String.ofList_toList], hforest, rfl, Nat.not_lt.1 hdeep⟩

theorem exists_branches {t : Term} {u : Regex} {made : List Step} {opened : Nat}
    (h : ParseTree.addForest config 0 [] [(Regex.bar t u).tree] = .ok (made, opened)) :
    ∃ branches, made = [.alternation branches] := by
  rw [addForest_bar] at h
  cases hbranches : ParseTree.addBranches config 0 [] ((Regex.bar t u).rows.map Term.tree) with
  | error e =>
    rw [hbranches] at h
    cases h
  | ok m =>
    rw [hbranches] at h
    obtain ⟨rfl, -⟩ := Prod.mk.inj (Except.ok.inj h)
    exact ⟨_, rfl⟩

/-- A pattern has a bar at its top level just when its only step is an alternation. -/
theorem topLevelBar_iff {pattern : String} {program : Program}
    (h : ofText config pattern = .ok program) :
    TopLevelBar pattern ↔ ∃ branches, program.steps = [.alternation branches] := by
  obtain ⟨r, made, rfl, hforest, hsteps, -⟩ := exists_regex_of_ofText h
  constructor
  · rintro ⟨left, right, hpattern, ⟨tree, hleft⟩, ⟨tree', hright⟩⟩
    obtain ⟨r₁, hr₁, -⟩ := parse_eq_ok_iff_regex.1 hleft
    obtain ⟨r₂, hr₂, -⟩ := parse_eq_ok_iff_regex.1 hright
    have htree : r.tree = (r₁.join r₂).tree := by
      have hparse := parse_regex (r₁.join r₂)
      rw [Regex.ofList_join, ← hr₁, ← hr₂, String.ofList_toList, String.ofList_toList, ← hpattern,
        parse_regex] at hparse
      exact Except.ok.inj hparse
    obtain ⟨t, u, hjoin⟩ := r₁.exists_join_eq_bar r₂
    rw [htree, hjoin] at hforest
    obtain ⟨branches, rfl⟩ := exists_branches hforest
    exact ⟨branches, hsteps⟩
  · rintro ⟨branches, halternation⟩
    cases r with
    | term t =>
      rw [addForest_term] at hforest
      obtain ⟨steps, rfl, hall⟩ := addForest_factors t hforest
      have hmem : Step.alternation branches ∈ steps := by
        rw [halternation, List.append_nil] at hsteps
        rw [← List.mem_reverse, ← hsteps]
        exact List.mem_singleton_self _
      have hother := hall _ hmem
      cases hother
    | bar t u =>
      exact ⟨String.ofList t.text, String.ofList u.text, Regex.ofList_join (.term t) u,
        ⟨_, parse_regex (.term t)⟩, ⟨_, parse_regex u⟩⟩

theorem not_topLevelBar {pattern : String} {step : Step} {groupCount : Nat}
    (h : ofText config pattern = .ok ⟨[step], groupCount⟩) (hstep : step.isAlternation = false) :
    ¬TopLevelBar pattern := by
  rw [topLevelBar_iff h]
  rintro ⟨branches, hbranches⟩
  cases hbranches
  cases hstep

theorem exists_term_of_ofText {pattern : String} {program : Program}
    (h : ofText config pattern = .ok program) (hbar : ¬TopLevelBar pattern) :
    ∃ (t : Term) (made : List Step), pattern = String.ofList t.text ∧
      ParseTree.addForest config 0 [] t.factors = .ok (made, program.groupCount) ∧
      program.steps = made.reverse ∧ program.depth ≤ nestingLimit := by
  obtain ⟨r, made, rfl, hforest, hsteps, hdepth⟩ := exists_regex_of_ofText h
  cases r with
  | term t =>
    rw [addForest_term] at hforest
    exact ⟨t, made, rfl, hforest, hsteps, hdepth⟩
  | bar t u =>
    obtain ⟨branches, rfl⟩ := exists_branches hforest
    exact absurd ((topLevelBar_iff h).2 ⟨branches, hsteps⟩) hbar

/-! ### The ways to put patterns together -/

section Compose

variable {p q : String} {P Q : Program} (hp : ofText config p = .ok P) (hq : ofText config q = .ok Q)
include hp

include hq in
theorem ofText_append (hbarp : ¬TopLevelBar p) (hbarq : ¬TopLevelBar q) :
    ofText config (p ++ q) =
      .ok ⟨P.steps ++ shiftSteps P.groupCount Q.steps, P.groupCount + Q.groupCount⟩ := by
  obtain ⟨t, made, rfl, hforest, hsteps, hdepth⟩ := exists_term_of_ofText hp hbarp
  obtain ⟨u, made', rfl, hforest', hsteps', hdepth'⟩ := exists_term_of_ofText hq hbarq
  have hshift := (ParseTree.shifts config).1 _ _ _ hforest' P.groupCount made
  rw [shiftSteps, List.nil_append, Nat.zero_add, Nat.add_comm Q.groupCount] at hshift
  have hforests : ParseTree.addForest config 0 [] [(Regex.term (t.append u)).tree] =
      .ok (shiftSteps P.groupCount made' ++ made, P.groupCount + Q.groupCount) := by
    rw [addForest_term, Term.factors_append, ParseTree.addForest_append_ok hforest, hshift]
  have hprogram := ofText_of_forest hforests
  rw [Regex.text, Term.text_append, String.ofList_append, List.reverse_append,
    ← shiftSteps_reverse, ← hsteps, ← hsteps'] at hprogram
  rw [hprogram]
  apply limited_of_le
  rw [depth, stepsDepth_append, stepsDepth_shift]
  exact Nat.max_le.2 ⟨hdepth, hdepth'⟩

include hq in
theorem ofText_bar : ofText config (p ++ "|" ++ q) =
    limited ⟨[.alternation
      (branchesOf P.steps ++ shiftBranches P.groupCount (branchesOf Q.steps))],
      P.groupCount + Q.groupCount⟩ := by
  obtain ⟨r, made, rfl, hforest, hsteps, -⟩ := exists_regex_of_ofText hp
  obtain ⟨s, made', rfl, hforest', hsteps', -⟩ := exists_regex_of_ofText hq
  have hrows := addBranches_rows hforest
  have hshift := (ParseTree.shifts config).2.2 _ _ _ (addBranches_rows hforest') P.groupCount
    (branchesOf made.reverse).reverse
  rw [shiftBranches, List.nil_append, Nat.zero_add, Nat.add_comm Q.groupCount] at hshift
  obtain ⟨t, u, hjoin⟩ := r.exists_join_eq_bar s
  have hforests : ParseTree.addForest config 0 [] [(r.join s).tree] =
      .ok ([.alternation (branchesOf P.steps ++ shiftBranches P.groupCount (branchesOf Q.steps))],
        P.groupCount + Q.groupCount) := by
    rw [hjoin, addForest_bar, ← hjoin, Regex.rows_join, List.map_append, addBranches_append, hrows]
    dsimp only
    rw [hshift, hsteps, hsteps']
    simp only [List.reverse_append, List.reverse_reverse, shiftBranches_reverse]
  rw [← Regex.ofList_join, ofText_of_forest hforests]
  rfl

theorem ofText_parens : ofText config ("(" ++ p ++ ")") =
    limited ⟨[.group 0 (shiftSteps 1 P.steps)], P.groupCount + 1⟩ := by
  obtain ⟨r, made, rfl, hforest, hsteps, -⟩ := exists_regex_of_ofText hp
  have hshift := (ParseTree.shifts config).1 _ _ _ hforest 1 []
  rw [shiftSteps, List.nil_append, List.append_nil, Nat.zero_add] at hshift
  have hforests : ParseTree.addForest config 0 []
      [(Regex.term (.cons (.group r) [] .nil)).tree] =
      .ok ([.group 0 (shiftSteps 1 P.steps)], P.groupCount + 1) := by
    rw [addForest_term, Term.factors, Term.factors, addForest_factorTree, addForest_group, hshift,
      hsteps, shiftSteps_reverse]
    exact ParseTree.addForest.eq_1 _ _ _
  have hprogram := ofText_of_forest hforests
  have htext : String.ofList (Regex.term (.cons (.group r) [] .nil)).text =
      "(" ++ String.ofList r.text ++ ")" := by
    rw [← String.toList_inj]
    simp [Regex.text, Term.text, Base.text, Quantifier.textAll]
  rw [← htext, hprogram]
  rfl

/-- A quantifier repeats the step of the factor before it, once its bounds are checked. -/
theorem ofText_repeated (hfactor : IsFactor p) : ∃ step, P.steps = [step] ∧ ∀ x : Quantifier,
    ofText config (p ++ x.toString) =
      match x.bounds.checkConstant config.upperBound x.toString with
      | .ok () => limited ⟨[.repetition step x.bounds x.toString], P.groupCount⟩
      | .error cause => .error (.number cause) := by
  obtain ⟨b, xs, hpattern⟩ := exists_factor_of_isFactor hfactor
  obtain ⟨r, made, hr, hforest, hsteps, -⟩ := exists_regex_of_ofText hp
  have htree : r.tree = (Regex.term (.cons b xs .nil)).tree := by
    have hparse := parse_regex (.term (.cons b xs .nil))
    rw [← hpattern, hr, parse_regex] at hparse
    exact Except.ok.inj hparse
  rw [htree, addForest_term, Term.factors, Term.factors] at hforest
  obtain ⟨step, rfl, -⟩ := addForest_factor hforest
  refine ⟨step, hsteps, fun x => ?_⟩
  have hforests : ParseTree.addForest config 0 [] [(Regex.term (.cons b (xs ++ [x]) .nil)).tree] =
      match x.bounds.checkConstant config.upperBound x.toString with
      | .ok () => .ok ([.repetition step x.bounds x.toString], P.groupCount)
      | .error cause => .error (.number cause) := by
    rw [addForest_factorTree, List.append_nil] at hforest
    rw [addForest_term, Term.factors, Term.factors, addForest_factorTree, List.append_nil,
      List.map_append, ← List.cons_append, ParseTree.addForest_append_ok hforest, List.map_singleton,
      addForest_quantifier, Step.repeatCounted]
    cases x.bounds.checkConstant config.upperBound x.toString with
    | ok u => exact ParseTree.addForest.eq_1 _ _ _
    | error cause => rfl
  have htext : String.ofList (Regex.term (.cons b (xs ++ [x]) .nil)).text = p ++ x.toString := by
    rw [hpattern, Quantifier.toString, ← String.ofList_append]
    simp [Regex.text, Term.text, Quantifier.textAll]
  rw [← htext, ofText_regex, ofTree, hforests]
  cases x.bounds.checkConstant config.upperBound x.toString <;> rfl

theorem ofText_quantifier (hfactor : IsFactor p) : ∃ step, P.steps = [step] ∧
    ∀ x : Quantifier, x.bounds.checkConstant config.upperBound x.toString = .ok () →
      ofText config (p ++ x.toString) =
        limited ⟨[.repetition step x.bounds x.toString], P.groupCount⟩ := by
  obtain ⟨step, hsteps, hrepeated⟩ := ofText_repeated hp hfactor
  refine ⟨step, hsteps, fun x hcheck => ?_⟩
  rw [hrepeated x, hcheck]

end Compose

/-- The program of a pattern is put together from the programs of its parts. Patterns without a bar at
their top level make one row, with a bar between them any two patterns make one alternation of their
branches, parentheses make a pattern a group, and a quantifier repeats what a single factor makes. -/
theorem ofText_compose (config : Config) (p q : String) (P Q : Program)
    (hp : ofText config p = .ok P) (hq : ofText config q = .ok Q) :
    (TopLevelBar p ↔ ∃ branches, P.steps = [.alternation branches]) ∧
    (¬TopLevelBar p → ¬TopLevelBar q → ofText config (p ++ q) =
      .ok ⟨P.steps ++ shiftSteps P.groupCount Q.steps, P.groupCount + Q.groupCount⟩) ∧
    ofText config (p ++ "|" ++ q) = limited
      ⟨[.alternation (branchesOf P.steps ++ shiftBranches P.groupCount (branchesOf Q.steps))],
        P.groupCount + Q.groupCount⟩ ∧
    ofText config ("(" ++ p ++ ")") =
      limited ⟨[.group 0 (shiftSteps 1 P.steps)], P.groupCount + 1⟩ ∧
    (IsFactor p → ∃ step, P.steps = [step] ∧
      ∀ x : Quantifier, x.bounds.checkConstant config.upperBound x.toString = .ok () →
        ofText config (p ++ x.toString) =
          limited ⟨[.repetition step x.bounds x.toString], P.groupCount⟩) :=
  ⟨topLevelBar_iff hp, ofText_append hp hq, ofText_bar hp hq, ofText_parens hp,
    ofText_quantifier hp⟩

/-- An atom that makes a simple step makes a program of this step alone. -/
theorem ofText_atom {config : Config} (a : Atom) {step : Step} (hsimple : step.isSimple = true)
    (h : ParseTree.addForest config 0 [] [a.inner] = .ok ([step], 0)) :
    ofText config (String.ofList a.text) = .ok ⟨[step], 0⟩ := by
  have hforest : ParseTree.addForest config 0 [] [(Regex.term (.cons (.atom a) [] .nil)).tree] =
      .ok ([step], 0) := by
    rw [addForest_term, Term.factors, Term.factors, addForest_factorTree, Base.tree,
      addForest_passedOver (by decide)]
    exact h
  have htext : (Regex.term (.cons (.atom a) [] .nil)).text = a.text := by
    simp [Regex.text, Term.text, Base.text, Quantifier.textAll]
  have hdepth : (⟨[step], 0⟩ : Program).depth = 0 := by
    cases step with
    | literal _ | oneOf _ | backref _ | source _ _ _ | numeric _ _ => rfl
    | group _ _ | repetition _ _ _ | alternation _ => cases hsimple
  rw [← htext, ofText_of_forest hforest]
  exact limited_of_le (hdepth.trans_le (Nat.zero_le _))

/-- A character that needs no backslash stands for itself. -/
theorem ofText_plain {config : Config} {c : Char} (hc : c ∉ metaChars) :
    ofText config (String.ofList [c]) = .ok ⟨[.literal (String.ofList [c])], 0⟩ := by
  have htext : (Part.nonMetaChar.node [.leaf (some c)]).text = String.ofList [c] := by
    rw [ParseTree.text_eq]
    rfl
  refine ofText_atom (.plain c hc) rfl ?_
  rw [Atom.inner, addForest_passedOver (by decide), List.append_nil,
    ParseTree.addForest_construct (construct?_node .nonMetaChar _),
    ParseTree.addConstruct_plain (c := .literal) (by decide) (by decide), Step.addPlain, htext]
  exact ParseTree.addForest.eq_1 _ _ _

/-- A digit after a backslash refers back to the group at its place. -/
theorem ofText_backref {config : Config} {d : Char} (hd : d ∈ digitChars) {place : UInt64}
    (hplace : readWord? [d] = some place) :
    ofText config (String.ofList ['\\', d]) = .ok ⟨[.backref place], 0⟩ := by
  have hdigit : (Part.backref.node [.leaf (some '\\'), Part.digit.node [.leaf (some d)]]).textOf
      "DIGIT" = String.ofList [d] :=
    textOf_behind_backslash (q := .digit) (by decide) d
  refine ofText_atom (.backref d hd) rfl ?_
  rw [Atom.inner, ParseTree.addForest_construct (construct?_node .backref _),
    ParseTree.addConstruct_plain (c := .backref) (by decide) (by decide), Step.addPlain, hdigit,
    String.toList_ofList, hplace]
  exact ParseTree.addForest.eq_1 _ _ _

theorem twoGroups_compose :
    ofText (Config.ofSettings {}) "(b)" = .ok ⟨[.group 0 [.literal "b"]], 1⟩ ∧
    (¬TopLevelBar "(b)") ∧
    ofText (Config.ofSettings {}) ("(b)" ++ "(b)") =
      .ok ⟨[.group 0 [.literal "b"], .group 1 [.literal "b"]], 2⟩ := by
  have hletter : ofText (Config.ofSettings {}) "b" = .ok ⟨[.literal "b"], 0⟩ :=
    ofText_plain (c := 'b') (by decide)
  have hgroup : ofText (Config.ofSettings {}) "(b)" = .ok ⟨[.group 0 [.literal "b"]], 1⟩ :=
    (ofText_parens hletter).trans (limited_of_le (by decide))
  obtain ⟨hbar, happend, -, -, -⟩ := ofText_compose _ "(b)" "(b)" _ _ hgroup hgroup
  have hnone : ¬TopLevelBar "(b)" := by
    rw [hbar]
    rintro ⟨branches, h⟩
    cases h
  exact ⟨hgroup, hnone, happend hnone hnone⟩

end Program

end PatternText
