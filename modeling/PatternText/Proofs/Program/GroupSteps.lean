import PatternText.Proofs.Program.GroupNodes
import PatternText.Proofs.Program.Numbering

/-! Groups and parentheses. The groups of a program are listed in the order in which they open, each with
the steps of its body. One by one they belong to the nodes of groups in the tree of the pattern, and so to
the parentheses that open a group in its text: the number of a group is the count of those before its own,
and its body is the program of the text between this one and the one that closes it. -/

namespace PatternText

open ParseTree PatternText.Part

mutual

/-- The groups in a step, each with its number and its body, in the order in which these open. -/
def Step.groups : Step → List (Nat × List Step)
  | .group id body => (id, body) :: stepsGroups body
  | .repetition step _ _ => step.groups
  | .alternation branches => branchesGroups branches
  | .literal _ | .oneOf _ | .backref _ | .source _ _ _ | .numeric _ _ => []

def stepsGroups : List Step → List (Nat × List Step)
  | [] => []
  | step :: steps => step.groups ++ stepsGroups steps

def branchesGroups : List (List Step) → List (Nat × List Step)
  | [] => []
  | branch :: branches => stepsGroups branch ++ branchesGroups branches

end

/-- The groups of a program. -/
def Program.groups (p : Program) : List (Nat × List Step) := stepsGroups p.steps

theorem stepsGroups_eq_flatMap (steps : List Step) : stepsGroups steps = steps.flatMap Step.groups := by
  induction steps with
  | nil => rfl
  | cons step steps ih => rw [stepsGroups, ih, List.flatMap_cons]

theorem branchesGroups_eq_flatMap (branches : List (List Step)) :
    branchesGroups branches = branches.flatMap stepsGroups := by
  induction branches with
  | nil => rfl
  | cons branch branches ih => rw [branchesGroups, ih, List.flatMap_cons]

/-- Steps are made in front of the list, so the groups of what was made last come last. -/
theorem stepsGroups_reverse_cons (step : Step) (made : List Step) :
    stepsGroups (step :: made).reverse = stepsGroups made.reverse ++ step.groups := by
  simp [stepsGroups_eq_flatMap]

theorem branchesGroups_reverse_cons (branch : List Step) (made : List (List Step)) :
    branchesGroups (branch :: made).reverse = branchesGroups made.reverse ++ stepsGroups branch := by
  simp [branchesGroups_eq_flatMap]

theorem branchesGroups_branchesOf (steps : List Step) :
    branchesGroups (branchesOf steps) = stepsGroups steps := by
  fun_cases branchesOf steps with
  | case1 branches => rw [stepsGroups, stepsGroups, List.append_nil, Step.groups]
  | case2 => rw [branchesGroups, branchesGroups, List.append_nil]

mutual

theorem Step.map_fst_groups (step : Step) : step.groups.map Prod.fst = step.groupIds := by
  cases step with
  | group id body => rw [Step.groups, Step.groupIds, List.map_cons, map_fst_stepsGroups]
  | repetition step bounds construct => rw [Step.groups, Step.groupIds, step.map_fst_groups]
  | alternation branches => rw [Step.groups, Step.groupIds, map_fst_branchesGroups]
  | literal _ | oneOf _ | backref _ | source _ _ _ | numeric _ _ => rfl

theorem map_fst_stepsGroups (steps : List Step) :
    (stepsGroups steps).map Prod.fst = stepsGroupIds steps := by
  cases steps with
  | nil => rfl
  | cons step steps =>
    rw [stepsGroups, stepsGroupIds, List.map_append, step.map_fst_groups, map_fst_stepsGroups]

theorem map_fst_branchesGroups (branches : List (List Step)) :
    (branchesGroups branches).map Prod.fst = branchesGroupIds branches := by
  cases branches with
  | nil => rfl
  | cons branch branches =>
    rw [branchesGroups, branchesGroupIds, List.map_append, map_fst_stepsGroups,
      map_fst_branchesGroups]

end

theorem Step.groups_of_isSimple {step : Step} (h : step.isSimple = true) : step.groups = [] :=
  List.map_eq_nil_iff.1 (step.map_fst_groups.trans (groupIds_of_isSimple h))

/-! ### The body of a group is not as deep as what the group stands in -/

mutual

theorem Step.depth_lt_of_mem_groups {step : Step} {group : Nat × List Step} (h : group ∈ step.groups) :
    stepsDepth 0 group.2 < step.depth := by
  cases step with
  | group id body =>
    rw [Step.groups, List.mem_cons] at h
    rw [Step.depth]
    rcases h with rfl | h
    · exact Nat.lt_succ_self _
    · exact Nat.lt_succ_of_lt (depth_lt_of_mem_stepsGroups h)
  | repetition step bounds construct =>
    rw [Step.groups] at h
    rw [Step.depth]
    exact Nat.lt_succ_of_lt (Step.depth_lt_of_mem_groups h)
  | alternation branches =>
    rw [Step.groups] at h
    rw [Step.depth]
    exact Nat.lt_succ_of_lt (depth_lt_of_mem_branchesGroups h)
  | literal _ | oneOf _ | backref _ | source _ _ _ | numeric _ _ => cases h

theorem depth_lt_of_mem_stepsGroups {steps : List Step} {group : Nat × List Step}
    (h : group ∈ stepsGroups steps) : stepsDepth 0 group.2 < stepsDepth 0 steps := by
  cases steps with
  | nil => cases h
  | cons step steps =>
    rw [stepsGroups, List.mem_append] at h
    rw [stepsDepth, Nat.zero_max, stepsDepth_eq_max step.depth, lt_max_iff]
    exact h.imp Step.depth_lt_of_mem_groups depth_lt_of_mem_stepsGroups

theorem depth_lt_of_mem_branchesGroups {branches : List (List Step)} {group : Nat × List Step}
    (h : group ∈ branchesGroups branches) : stepsDepth 0 group.2 < branchesDepth 0 branches := by
  cases branches with
  | nil => cases h
  | cons branch branches =>
    rw [branchesGroups, List.mem_append] at h
    rw [branchesDepth, Nat.zero_max, branchesDepth_eq_max, lt_max_iff]
    exact h.imp depth_lt_of_mem_stepsGroups depth_lt_of_mem_branchesGroups

end

/-! ### Groups one by one -/

variable {config : Config}

/-- The body of the group is what the walk makes of the inside of the node, once the group itself and
those before it have opened. -/
def MadeFrom (config : Config) (group : Nat × List Step) (site : Nat × ParseTree) : Prop :=
  ∃ r made opened, site.2 = Regex.groupTree r ∧
    addForest config (group.1 + 1) [] [r.tree] = .ok (made, opened) ∧ group.2 = made.reverse

/-- The groups that come after those from before belong one by one to the nodes. -/
def Adds (config : Config) (before after : List (Nat × List Step)) (sites : List (Nat × ParseTree)) :
    Prop :=
  ∃ groups, after = before ++ groups ∧ List.Forall₂ (MadeFrom config) groups sites

namespace Adds

variable {before middle later : List (Nat × List Step)} {sites sites' : List (Nat × ParseTree)}

theorem nil (before : List (Nat × List Step)) : Adds config before before [] :=
  ⟨[], (List.append_nil before).symm, .nil⟩

theorem trans (h : Adds config before middle sites) (h' : Adds config middle later sites') :
    Adds config before later (sites ++ sites') := by
  obtain ⟨groups, rfl, hall⟩ := h
  obtain ⟨groups', rfl, hall'⟩ := h'
  exact ⟨groups ++ groups', List.append_assoc before groups groups', List.rel_append hall hall'⟩

theorem forall₂ (h : Adds config [] later sites) : List.Forall₂ (MadeFrom config) later sites := by
  obtain ⟨groups, rfl, hall⟩ := h
  exact hall

/-- What follows nothing can follow anything. -/
theorem after (h : Adds config [] later sites) (before : List (Nat × List Step)) :
    Adds config before (before ++ later) sites :=
  ⟨later, rfl, h.forall₂⟩

end Adds

/-- The first branch is made by itself, the others after it. -/
theorem exists_of_addBranches_cons {groups opened : Nat} {made out : List (List Step)}
    {t : ParseTree} {ts : List ParseTree}
    (h : addBranches config groups made (t :: ts) = .ok (out, opened)) :
    ∃ branch between, addForest config groups [] [t] = .ok (branch, between) ∧
      addBranches config between (branch.reverse :: made) ts = .ok (out, opened) := by
  rw [addBranches] at h
  cases hbranch : addForest config groups [] [t] with
  | error e =>
    rw [hbranch] at h
    cases h
  | ok m =>
    rw [hbranch] at h
    exact ⟨m.1, m.2, rfl, h⟩

theorem groups_quantifiers (xs : List Quantifier) {groups opened : Nat} {made out : List Step}
    (h : addForest config groups made (xs.map Quantifier.tree) = .ok (out, opened)) :
    stepsGroups out.reverse = stepsGroups made.reverse := by
  induction xs generalizing made with
  | nil =>
    rw [List.map_nil, addForest] at h
    cases h
    rfl
  | cons x xs ih =>
    rw [List.map_cons, addForest_quantifier, Step.repeatCounted] at h
    cases hcheck : x.bounds.checkConstant config.upperBound x.toString with
    | error cause =>
      rw [hcheck] at h
      cases h
    | ok u =>
      rw [hcheck] at h
      cases made with
      | nil => cases h
      | cons operand made =>
        rw [ih h, stepsGroups_reverse_cons, stepsGroups_reverse_cons, Step.groups]

mutual

theorem Base.adds (b : Base) (place : Nat) {groups opened : Nat} {made out : List Step}
    (h : addForest config groups made [b.tree] = .ok (out, opened)) :
    Adds config (stepsGroups made.reverse) (stepsGroups out.reverse)
      (b.tree.nodesAt "PARENS" place) := by
  cases b with
  | atom a =>
    obtain ⟨step, rfl, hsimple⟩ := addForest_atom a h
    rw [nodesAt_atom, stepsGroups_reverse_cons, Step.groups_of_isSimple hsimple, List.append_nil]
    exact .nil _
  | group r =>
    rw [addForest_group] at h
    cases hbody : addForest config (groups + 1) [] [r.tree] with
    | error e =>
      rw [hbody] at h
      cases h
    | ok m =>
      rw [hbody] at h
      dsimp only at h
      rw [addForest] at h
      cases h
      have hinside := (Regex.adds r (place + 1) (addBranches_rows hbody)).forall₂
      rw [List.reverse_reverse, branchesGroups_branchesOf] at hinside
      rw [nodesAt_group, stepsGroups_reverse_cons, Step.groups]
      exact ⟨_, rfl, .cons ⟨r, m.1, _, rfl, hbody, rfl⟩ hinside⟩

theorem Term.adds (t : Term) (place : Nat) {groups opened : Nat} {made out : List Step}
    (h : addForest config groups made t.factors = .ok (out, opened)) :
    Adds config (stepsGroups made.reverse) (stepsGroups out.reverse)
      (t.tree.nodesAt "PARENS" place) := by
  cases t with
  | nil =>
    rw [Term.factors, addForest] at h
    cases h
    exact .nil _
  | cons b xs t =>
    rw [Term.factors, addForest_factorTree, ← List.singleton_append] at h
    obtain ⟨made', between, hbase, h⟩ := exists_of_addForest_append h
    obtain ⟨made'', between', hquantifiers, htail⟩ := exists_of_addForest_append h
    have hbefore := Base.adds b place hbase
    rw [← groups_quantifiers xs hquantifiers] at hbefore
    rw [nodesAt_cons]
    exact hbefore.trans (Term.adds t _ htail)

theorem Regex.adds (r : Regex) (place : Nat) {groups opened : Nat} {made out : List (List Step)}
    (h : addBranches config groups made (r.rows.map Term.tree) = .ok (out, opened)) :
    Adds config (branchesGroups made.reverse) (branchesGroups out.reverse)
      (r.tree.nodesAt "PARENS" place) := by
  cases r with
  | term t =>
    rw [Regex.rows, List.map_singleton] at h
    obtain ⟨branch, between, hrow, h⟩ := exists_of_addBranches_cons h
    rw [addBranches] at h
    cases h
    rw [addForest_row] at hrow
    rw [nodesAt_term, branchesGroups_reverse_cons]
    exact (Term.adds t place hrow).after _
  | bar t r =>
    rw [Regex.rows, List.map_cons] at h
    obtain ⟨branch, between, hrow, h⟩ := exists_of_addBranches_cons h
    rw [addForest_row] at hrow
    have hbefore := (Term.adds t place hrow).after (branchesGroups made.reverse)
    have hrest := Regex.adds r (place + t.text.length + 1) h
    rw [branchesGroups_reverse_cons] at hrest
    rw [nodesAt_bar]
    exact hbefore.trans hrest

end

/-! ### Programs of the text between parentheses -/

/-- Wherever a pattern is compiled, it makes the steps that it makes by itself, with its groups raised. -/
theorem exists_shiftSteps_of_addForest {n opened : Nat} {made : List Step} {r : Regex}
    (h : addForest config n [] [r.tree] = .ok (made, opened)) :
    ∃ steps groupCount, addForest config 0 [] [r.tree] = .ok (steps, groupCount) ∧
      made = shiftSteps n steps := by
  rcases Regex.outcome config r with ⟨hmakes, -⟩ | ⟨e, -, hfails⟩
  · obtain ⟨-, steps, groupCount, -, hsteps, -⟩ := hmakes 0
    have hshift := (ParseTree.shifts config).1 _ _ _ (hsteps []) n []
    rw [shiftSteps, List.nil_append, List.append_nil, Nat.zero_add, h] at hshift
    exact ⟨steps ++ [], groupCount, hsteps [], (Prod.mk.inj (Except.ok.inj hshift)).1⟩
  · rw [hfails.2] at h
    cases h

namespace Program

theorem exists_ofText_of_madeFrom {group : Nat × List Step} {site : Nat × ParseTree}
    (h : MadeFrom config group site) (hdepth : stepsDepth 0 group.2 ≤ nestingLimit) :
    ∃ (r : Regex) (Q : Program), site.2 = r.groupTree ∧
      ofText config (String.ofList r.text) = .ok Q ∧ group.2 = shiftSteps (group.1 + 1) Q.steps := by
  obtain ⟨r, made, opened, hsite, hforest, hbody⟩ := h
  obtain ⟨steps, groupCount, hinner, rfl⟩ := exists_shiftSteps_of_addForest hforest
  rw [← shiftSteps_reverse] at hbody
  rw [hbody, stepsDepth_shift] at hdepth
  exact ⟨r, ⟨steps.reverse, groupCount⟩, hsite,
    (ofText_of_forest hinner).trans (limited_of_le hdepth), hbody⟩

/-- The parentheses of a group enclose the text of the pattern in it. -/
theorem exists_around_of_groupTree {r inner : Regex} {site : Nat × ParseTree}
    (hsite : site ∈ r.tree.nodesNamed "PARENS") (hnode : site.2 = inner.groupTree) :
    ∃ front back : String,
      String.ofList r.text = front ++ "(" ++ String.ofList inner.text ++ ")" ++ back ∧
      site.1 = front.length := by
  obtain ⟨front, back, hchars, hplace⟩ := exists_around_of_mem_nodesAt hsite
  rw [r.chars_tree, hnode, inner.chars_groupTree] at hchars
  refine ⟨String.ofList front, String.ofList back, ?_, ?_⟩
  · rw [← String.toList_inj]
    simp [hchars]
  · rw [hplace, Nat.zero_add, String.length_ofList]

theorem ofText_of_ofPattern {pattern : String} {program : Program}
    (h : ofPattern config pattern = .ok program) :
    pattern.utf8ByteSize ≤ patternLimit ∧ ofText config pattern = .ok program := by
  rw [ofPattern_eq] at h
  split at h
  next => cases h
  next hshort => exact ⟨Nat.not_lt.1 hshort, h⟩

/-- The groups of a program are those that open in its pattern, in the same order. There are as many as
nodes of groups in the tree of the pattern, and these begin at the parentheses of the text that open a
group. Listed from the front, through bodies, branches and repeated steps, they bear the numbers from zero
on. The one with number `k` belongs to the opening parenthesis with this number, and its body is the
program of the text that the parentheses enclose, with the numbers of its groups raised accordingly. -/
theorem groups_number_openings {pattern : String} {program : Program}
    (h : ofPattern config pattern = .ok program) :
    ∃ tree, patternTree pattern = .ok tree ∧
      program.groupCount = (tree.nodesNamed "PARENS").length ∧
      openParentheses pattern = (tree.nodesNamed "PARENS").map Prod.fst ∧
      program.groups.map Prod.fst = List.range program.groupCount ∧
      ∀ k < program.groupCount, ∃ (front inner back : String) (node : ParseTree) (Q : Program),
        pattern = front ++ "(" ++ inner ++ ")" ++ back ∧
        (openParentheses pattern)[k]? = some front.length ∧
        (tree.nodesNamed "PARENS")[k]? = some (front.length, node) ∧
        node.text = "(" ++ inner ++ ")" ∧
        ofText config inner = .ok Q ∧
        program.groups[k]? = some (k, shiftSteps (k + 1) Q.steps) := by
  obtain ⟨hshort, htext⟩ := ofText_of_ofPattern h
  obtain ⟨r, made, rfl, hforest, hsteps, hdepth⟩ := exists_regex_of_ofText htext
  have htree : patternTree (String.ofList r.text) = .ok r.tree := by
    rw [patternTree, if_neg (Nat.not_lt.2 hshort), parse_regex]
  have hids : program.groups.map Prod.fst = List.range program.groupCount := by
    rw [ofText_regex] at htext
    exact (map_fst_stepsGroups program.steps).trans (groupIds_ofTree htext)
  have hall : List.Forall₂ (MadeFrom config) program.groups (r.tree.nodesNamed "PARENS") := by
    have hrows := (Regex.adds r 0 (addBranches_rows hforest)).forall₂
    rw [List.reverse_reverse, branchesGroups_branchesOf, ← hsteps] at hrows
    exact hrows
  have hlength : program.groups.length = program.groupCount := by
    rw [← List.length_map Prod.fst, hids, List.length_range]
  refine ⟨r.tree, htree, hlength.symm.trans hall.length_eq, openParentheses_eq r, hids, fun k hk => ?_⟩
  have hgroup : k < program.groups.length := hlength.symm ▸ hk
  have hsite : k < (r.tree.nodesNamed "PARENS").length := hall.length_eq ▸ hgroup
  have hid : program.groups[k].1 = k := by
    have hnumber : (program.groups.map Prod.fst)[k]? = some k := by
      rw [hids, List.getElem?_range hk]
    rw [List.getElem?_map, List.getElem?_eq_getElem hgroup] at hnumber
    exact Option.some.inj hnumber
  have hdeep := depth_lt_of_mem_stepsGroups (List.getElem_mem hgroup)
  obtain ⟨inner, Q, hnode, hprogram, hbody⟩ := exists_ofText_of_madeFrom (hall.get hgroup hsite)
    (hdeep.le.trans hdepth)
  obtain ⟨front, back, hpattern, hplace⟩ := exists_around_of_groupTree (List.getElem_mem hsite) hnode
  have hfound : (r.tree.nodesNamed "PARENS")[k]? = some (front.length, inner.groupTree) := by
    rw [List.getElem?_eq_getElem hsite, ← hplace, ← hnode]
    rfl
  refine ⟨front, String.ofList inner.text, back, inner.groupTree, Q, hpattern, ?_, hfound,
    inner.text_groupTree, hprogram, ?_⟩
  · rw [openParentheses_eq, List.getElem?_map, hfound, Option.map_some]
  · rw [List.get_eq_getElem, hid] at hbody
    rw [List.getElem?_eq_getElem hgroup]
    exact congrArg some (Prod.ext hid hbody)

/-- A group with a group inside, and a third one after both. -/
theorem threeGroups_number : ∃ tree program,
    ofPattern (.ofSettings {}) "((b))(b)" = .ok program ∧
    patternTree "((b))(b)" = .ok tree ∧
    (tree.nodesNamed "PARENS").map Prod.fst = [0, 1, 5] ∧
    program.groups = [(0, [.group 1 [.literal "b"]]), (1, [.literal "b"]), (2, [.literal "b"])] ∧
    ∃ (front inner back : String) (node : ParseTree) (Q : Program),
      "((b))(b)" = front ++ "(" ++ inner ++ ")" ++ back ∧ front.length = 1 ∧
      (tree.nodesNamed "PARENS")[1]? = some (1, node) ∧ node.text = "(" ++ inner ++ ")" ∧
      ofText (.ofSettings {}) inner = .ok Q ∧ shiftSteps 2 Q.steps = [.literal "b"] := by
  have hletter : ofText (.ofSettings {}) "b" = .ok ⟨[.literal "b"], 0⟩ :=
    ofText_plain (c := 'b') (by decide)
  have hgroup : ofText (.ofSettings {}) "(b)" = .ok ⟨[.group 0 [.literal "b"]], 1⟩ :=
    (ofText_parens hletter).trans (limited_of_le (by decide))
  have hnested : ofText (.ofSettings {}) ("(" ++ "(b)" ++ ")") =
      .ok ⟨[.group 0 [.group 1 [.literal "b"]]], 2⟩ :=
    (ofText_parens hgroup).trans (limited_of_le (by decide))
  have hthree := ofText_append hnested hgroup (not_topLevelBar hnested rfl)
    (not_topLevelBar hgroup rfl)
  have htext : "(" ++ "(b)" ++ ")" ++ "(b)" = "((b))(b)" := by decide +kernel
  rw [htext] at hthree
  have hprogram : ofPattern (.ofSettings {}) "((b))(b)" =
      .ok ⟨[.group 0 [.group 1 [.literal "b"]], .group 2 [.literal "b"]], 3⟩ := by
    rw [ofPattern_eq, if_neg (by decide)]
    exact hthree
  obtain ⟨tree, htree, -, hopen, -, hall⟩ := groups_number_openings hprogram
  obtain ⟨front, inner, back, node, Q, hpattern, hplace, hnode, hinside, hinner, hbody⟩ :=
    hall 1 (by decide)
  have hopenings : openParentheses "((b))(b)" = [0, 1, 5] := by decide +kernel
  rw [hopenings] at hopen hplace
  obtain hfront : 1 = front.length := Option.some.inj hplace
  rw [← hfront] at hnode
  have hsteps : [Step.literal "b"] = shiftSteps 2 Q.steps :=
    (Prod.mk.inj (Option.some.inj hbody)).2
  exact ⟨tree, _, hprogram, htree, hopen.symm, rfl, front, inner, back, node, Q, hpattern,
    hfront.symm, hnode, hinside, hinner, hsteps.symm⟩

end Program

end PatternText
