import PatternText.Proofs.Program.Compose
import PatternText.Proofs.Program.Outcome

/-! Operands. A quantifier takes the step made last, and nothing checks that this is the step of the base
it stands behind. In the tree of a pattern it always is. Whatever stands before it, a base makes exactly
one step, each of its multipliers wraps this one, and so the steps of a row are those of its factors one
by one. The tree of a pattern is that of its syntax, along which the two outcomes of every part are
followed: what it makes in every place, or the error in which it ends in every place. -/

namespace PatternText

open ParseTree PatternText.Part

/-- The items of a repeated part: each of its nodes holds one item and the rest of them. -/
def ParseTree.chain : ParseTree → List ParseTree
  | node _ [item, rest] => item :: rest.chain
  | _ => []

/-- One repetition for each multiplier is put around the operand, for the first one innermost. -/
inductive Wraps (config : Config) : List ParseTree → Step → Step → Prop where
  | nil (operand : Step) : Wraps config [] operand operand
  | cons {multiplier : ParseTree} {multipliers : List ParseTree} {bounds : Bounds}
      {operand step : Step} (hname : multiplier.bears "MULTIPLIER" = true)
      (hmakes : ∀ groups made, addForest config groups (operand :: made) [multiplier] =
        .ok (.repetition operand bounds multiplier.text :: made, groups))
      (hrest : Wraps config multipliers (.repetition operand bounds multiplier.text) step) :
      Wraps config (multiplier :: multipliers) operand step

/-- Each factor makes one step, in order: the one that its base makes by itself, wrapped by its
multipliers. Between factors the number of groups that have opened is passed on. -/
inductive MakesEach (config : Config) : List ParseTree → Nat → List Step → Nat → Prop where
  | nil (groups : Nat) : MakesEach config [] groups [] groups
  | cons {base multipliers : ParseTree} {factors : List ParseTree} {groups between opened : Nat}
      {operand step : Step} {steps : List Step} (hbase : base.bears "BASE" = true)
      (hmultipliers : multipliers.bears "MULTIPLIERS" = true)
      (hoperand : ∀ made, addForest config groups made [base] = .ok (operand :: made, between))
      (hwraps : Wraps config multipliers.chain operand step)
      (hrest : MakesEach config factors between steps opened) :
      MakesEach config (.node "FACTOR" [base, multipliers] :: factors) groups (step :: steps) opened

/-- Quantifiers in this node have their own operands: a row makes one step for each of its factors, and
alternatives make a single step. Neither touches the steps made before. -/
structure ParseTree.KeepsOperands (config : Config) (t : ParseTree) : Prop where
  row : t.bears "TERM" = true → ∀ groups, ∃ steps opened,
    MakesEach config t.chain groups steps opened ∧
      ∀ made, addForest config groups made [t] = .ok (steps.reverse ++ made, opened)
  alternatives : t.bears "REGEX" = true → (∃ u ∈ t.children, u.bears "ALTERNATIVES" = true) →
    ∀ groups, ∃ branches opened,
      ∀ made, addForest config groups made [t] = .ok (.alternation branches :: made, opened)

theorem ParseTree.chain_rowTree (p : Part) (ts : List ParseTree) : (p.rowTree ts).chain = ts := by
  induction ts with
  | nil => rfl
  | cons t ts ih =>
    show chain (.node p.title [t, p.rowTree ts]) = t :: ts
    rw [chain, ih]

/-! ### Rows of factors -/

section Outcomes

variable {config : Config}

theorem Quantifier.bears_tree (x : Quantifier) : x.tree.bears "MULTIPLIER" = true :=
  beq_self_eq_true _

theorem Quantifier.text_tree (x : Quantifier) : x.tree.text = x.toString :=
  chars_of_reads (reads_multiplier x : multiplier.reads (x.text ++ []) = _)

theorem possible_of_rowTree {p : Part} {ts : List ParseTree} {t : ParseTree} {e : CompileError}
    (h : e.Possible t) (ht : t ∈ ts) : e.Possible (p.rowTree ts) := by
  induction ts with
  | nil => cases ht
  | cons u ts ih =>
    rw [rowTree]
    rcases List.mem_cons.1 ht with rfl | ht
    · exact h.of_child List.mem_cons_self
    · exact (ih ht).of_child (List.mem_cons_of_mem _ List.mem_cons_self)

theorem quantifiers_outcome (config : Config) (xs : List Quantifier) :
    (∀ operand, ∃ step, Wraps config (xs.map Quantifier.tree) operand step ∧
      ∀ groups made, addForest config groups (operand :: made) (xs.map Quantifier.tree) =
        .ok (step :: made, groups)) ∨
    ∃ e, (∃ x ∈ xs, e.Possible x.tree) ∧ ∀ groups operand made,
      addForest config groups (operand :: made) (xs.map Quantifier.tree) = .error e := by
  induction xs with
  | nil => exact .inl fun operand => ⟨operand, .nil operand, fun _ _ => addForest.eq_1 _ _ _⟩
  | cons x xs ih =>
    rcases x.outcome config with hwrap | ⟨e, hpossible, hfails⟩
    · rcases ih with hmakes | ⟨e, ⟨y, hy, hpossible⟩, hfails⟩
      · refine .inl fun operand => ?_
        obtain ⟨step, hwraps, hall⟩ := hmakes (.repetition operand x.bounds x.toString)
        rw [← x.text_tree] at hwraps
        refine ⟨step, .cons x.bears_tree (fun groups made => ?_) hwraps, fun groups made => ?_⟩
        · rw [hwrap, x.text_tree]
        · rw [List.map_cons, addForest_cons_ok (hwrap groups operand made), hall]
      · refine .inr ⟨e, ⟨y, List.mem_cons_of_mem _ hy, hpossible⟩, fun groups operand made => ?_⟩
        rw [List.map_cons, addForest_cons_ok (hwrap groups operand made), hfails]
    · refine .inr ⟨e, ⟨x, List.mem_cons_self, hpossible⟩, fun groups operand made => ?_⟩
      exact hfails.first _ groups (operand :: made)

/-- What the walk makes of the factors of a row. -/
def Term.Makes (config : Config) (t : Term) : Prop :=
  ∀ groups, ∃ steps opened, MakesEach config t.factors groups steps opened ∧
    ∀ made, addForest config groups made t.factors = .ok (steps.reverse ++ made, opened)

theorem Base.bears_tree (b : Base) : b.tree.bears "BASE" = true := by
  cases b <;> exact beq_self_eq_true _

theorem rowTree_bears (p : Part) (ts : List ParseTree) : (p.rowTree ts).bears p.title = true := by
  cases ts <;> exact beq_self_eq_true _

theorem Term.Makes.nil : (Term.nil).Makes config :=
  fun groups => ⟨[], groups, .nil groups, fun _ => addForest.eq_1 _ _ _⟩

/-- A factor makes the step of its base, wrapped by its quantifiers. -/
def FactorMakes (config : Config) (b : Base) (xs : List Quantifier) : Prop :=
  ∀ groups, ∃ operand step between,
    (∀ made, addForest config groups made [b.tree] = .ok (operand :: made, between)) ∧
    Wraps config (xs.map Quantifier.tree) operand step ∧
    ∀ made, addForest config groups made [factorTree b.tree xs] = .ok (step :: made, between)

theorem FactorMakes.makesStep {b : Base} {xs : List Quantifier} (h : FactorMakes config b xs) :
    MakesStep config (factorTree b.tree xs) := by
  intro groups
  obtain ⟨-, step, between, -, -, hstep⟩ := h groups
  exact ⟨step, between, hstep⟩

theorem Term.Makes.cons {b : Base} {xs : List Quantifier} {t : Term}
    (hfactor : FactorMakes config b xs) (ht : t.Makes config) :
    (Term.cons b xs t).Makes config := by
  intro groups
  obtain ⟨operand, step, between, hoperand, hwraps, hstep⟩ := hfactor groups
  obtain ⟨steps, opened, heach, hsteps⟩ := ht between
  refine ⟨step :: steps, opened, ?_, fun made => ?_⟩
  · rw [← chain_rowTree multipliers (xs.map Quantifier.tree)] at hwraps
    exact .cons b.bears_tree (rowTree_bears multipliers _) hoperand hwraps heach
  · rw [Term.factors, addForest_cons_ok (hstep made), hsteps, List.reverse_cons,
      List.append_assoc, List.singleton_append]

/-! ### Nodes without operands -/

/-- Quantifiers have their own operands everywhere in this tree. -/
def KeepsAll (config : Config) (t : ParseTree) : Prop :=
  ∀ u : ParseTree, u.LiesIn t → u.KeepsOperands config

/-- The parts below which no further row begins. -/
def innerParts : List Part :=
  parts.filter fun p => !([regex, Part.alternatives, term, factor, base, parens].contains p)

theorem closed_innerParts : closed innerParts = true := by
  decide +kernel

theorem keepsAll_of_reads {p : Part} (hp : p ∈ innerParts) {cs rest : List Char} {t : ParseTree}
    (h : p.reads cs = some (t, rest)) : KeepsAll config t := by
  intro u hu
  have hother {q : Part} (hq : q ∉ innerParts) : u.bears q.title = false :=
    bears_eq_false_of_liesIn closed_innerParts hp hq h hu
  constructor
  · intro hname
    cases hname.symm.trans (hother (q := term) (by decide))
  · intro hname
    cases hname.symm.trans (hother (q := regex) (by decide))

theorem keepsAll_leaf (c : Option Char) : KeepsAll config (.leaf c) := by
  intro u hu
  rw [eq_of_liesIn_leaf hu]
  exact ⟨nofun, nofun⟩

theorem keepsAll_node {p : Part} {ts : List ParseTree} (h : (p.node ts).KeepsOperands config)
    (hts : ∀ t ∈ ts, KeepsAll config t) : KeepsAll config (p.node ts) := by
  intro u hu
  rcases liesIn_node.1 hu with rfl | ⟨t, ht, hin⟩
  · exact h
  · exact hts t ht u hin

theorem keepsOperands_of_ne {p : Part} (hterm : p ≠ term) (hregex : p ≠ regex) (ts : List ParseTree) :
    (p.node ts).KeepsOperands config := by
  constructor
  · intro hname
    cases hname.symm.trans (bears_eq_false hterm ts)
  · intro hname
    cases hname.symm.trans (bears_eq_false hregex ts)

/-- The tree below the node of an atom is a match of a part without rows. -/
theorem Atom.exists_reads_inner (a : Atom) :
    ∃ p ∈ innerParts, ∃ cs rest, p.reads cs = some (a.inner, rest) := by
  have hread : base.reads (a.text ++ []) = some (base.node [a.inner], []) := reads_base_atom a
  obtain ⟨q, -, t, hnode, hread⟩ := exists_reads_of_choice
    [.char, .dot, .parens, .backref, .sourceExpr, .numericExpr] rfl hread
  obtain rfl := List.singleton_inj.1 (node.inj hnode).2
  have hinner : ∀ p ∈ operandParts, p ∈ innerParts := by decide +kernel
  obtain ⟨p, hp, us, htree | htree⟩ := a.exists_inner
  · obtain rfl : q = p := eq_of_bears hread (by rw [htree]; exact beq_self_eq_true _)
    exact ⟨q, hinner q hp, _, _, hread⟩
  · obtain rfl : q = char := eq_of_bears hread (by rw [htree]; exact beq_self_eq_true _)
    exact ⟨char, by decide +kernel, _, _, hread⟩

theorem Atom.keepsAll_inner (a : Atom) : KeepsAll config a.inner := by
  obtain ⟨p, hp, cs, rest, hread⟩ := a.exists_reads_inner
  exact keepsAll_of_reads hp hread

theorem Quantifier.keepsAll_tree (x : Quantifier) : KeepsAll config x.tree := by
  have hread : multiplier.reads (x.text ++ []) = some (x.tree, []) := reads_multiplier x
  exact keepsAll_of_reads (by decide +kernel) hread

theorem keepsAll_rowTree {p : Part} (hterm : p ≠ term) (hregex : p ≠ regex) {ts : List ParseTree}
    (h : ∀ t ∈ ts, KeepsAll config t) : KeepsAll config (p.rowTree ts) := by
  induction ts with
  | nil =>
    refine keepsAll_node (keepsOperands_of_ne hterm hregex _) fun t ht => ?_
    rw [List.mem_singleton.1 ht]
    exact keepsAll_leaf none
  | cons u ts ih =>
    obtain ⟨hu, hts⟩ := List.forall_mem_cons.1 h
    refine keepsAll_node (keepsOperands_of_ne hterm hregex _) ?_
    exact List.forall_mem_cons.2 ⟨hu, List.forall_mem_singleton.2 (ih hts)⟩

theorem keepsAll_factorTree {b : Base} (xs : List Quantifier) (h : KeepsAll config b.tree) :
    KeepsAll config (factorTree b.tree xs) := by
  have hquantifiers : ∀ t ∈ xs.map Quantifier.tree, KeepsAll config t := by
    intro t ht
    obtain ⟨x, -, rfl⟩ := List.mem_map.1 ht
    exact x.keepsAll_tree
  refine keepsAll_node (keepsOperands_of_ne (by decide) (by decide) _) ?_
  refine List.forall_mem_cons.2 ⟨h, List.forall_mem_singleton.2 ?_⟩
  exact keepsAll_rowTree (by decide) (by decide) hquantifiers

/-! ### Rows and alternatives -/

theorem rowTree_bears_eq_false {p q : Part} (hne : p ≠ q) (ts : List ParseTree) :
    (p.rowTree ts).bears q.title = false := by
  cases ts <;> exact bears_eq_false hne _

theorem Term.Makes.keepsOperands {t : Term} (h : t.Makes config) : t.tree.KeepsOperands config := by
  constructor
  · intro _ groups
    obtain ⟨steps, opened, heach, hsteps⟩ := h groups
    refine ⟨steps, opened, ?_, fun made => ?_⟩
    · rw [Term.tree, chain_rowTree]
      exact heach
    · rw [addForest_row, hsteps]
  · intro hname
    cases hname.symm.trans (rowTree_bears_eq_false (q := regex) (by decide) t.factors)

/-- What the walk makes of the rows of a pattern, as branches and as a whole. -/
def Regex.Makes (config : Config) (r : Regex) : Prop :=
  ∀ groups, ∃ branches steps opened,
    (∀ made, addBranches config groups made (r.rows.map Term.tree) =
      .ok (branches ++ made, opened)) ∧
    (∀ made, addForest config groups made [r.tree] = .ok (steps ++ made, opened)) ∧
    ∀ t s, r = .bar t s → steps = [.alternation branches.reverse]

/-- The rows of a pattern fail, as branches and as a whole. -/
def Regex.FailsWith (config : Config) (e : CompileError) (r : Regex) : Prop :=
  (∀ groups made, addBranches config groups made (r.rows.map Term.tree) = .error e) ∧
    PatternText.FailsWith config e [r.tree]

theorem addBranches_cons_ok {groups opened : Nat} {branch : List Step} {t : Term}
    (h : addForest config groups [] t.factors = .ok (branch, opened)) (made : List (List Step))
    (ts : List ParseTree) : addBranches config groups made (t.tree :: ts) =
      addBranches config opened (branch.reverse :: made) ts := by
  rw [addBranches, addForest_row, h]

theorem Term.Makes.regex {t : Term} (h : t.Makes config) : (Regex.term t).Makes config := by
  intro groups
  obtain ⟨steps, opened, -, hsteps⟩ := h groups
  refine ⟨[steps.reverse.reverse], steps.reverse, opened, fun made => ?_, fun made => ?_, nofun⟩
  · have hbranch := hsteps []
    rw [List.append_nil] at hbranch
    rw [Regex.rows, List.map_singleton, addBranches_cons_ok hbranch]
    exact addBranches.eq_1 _ _ _
  · rw [addForest_term, hsteps]

theorem Regex.Makes.bar {t : Term} {r : Regex} (ht : t.Makes config) (hr : r.Makes config) :
    (Regex.bar t r).Makes config := by
  intro groups
  obtain ⟨steps, between, -, hsteps⟩ := ht groups
  obtain ⟨branches, -, opened, hbranches, -⟩ := hr between
  have hall (made : List (List Step)) :
      addBranches config groups made ((Regex.bar t r).rows.map Term.tree) =
        .ok (branches ++ [steps] ++ made, opened) := by
    have hbranch := hsteps []
    rw [List.append_nil] at hbranch
    rw [Regex.rows, List.map_cons, addBranches_cons_ok hbranch, hbranches, List.reverse_reverse,
      List.append_assoc, List.singleton_append]
  refine ⟨branches ++ [steps], [.alternation (branches ++ [steps]).reverse], opened, hall,
    fun made => ?_, fun _ _ _ => rfl⟩
  rw [addForest_bar, hall, List.append_nil]
  rfl

theorem Regex.Makes.keepsOperands {r : Regex} (h : r.Makes config) :
    r.tree.KeepsOperands config := by
  constructor
  · intro hname
    cases r <;> cases hname.symm.trans (bears_eq_false (p := .regex) (q := .term) (by decide) _)
  · rintro - ⟨u, hu, hname⟩ groups
    cases r with
    | term t =>
      obtain rfl : u = t.tree := List.mem_singleton.1 hu
      cases hname.symm.trans (rowTree_bears_eq_false (q := Part.alternatives) (by decide) t.factors)
    | bar t r =>
      obtain ⟨branches, steps, opened, -, hsteps, hbar⟩ := h groups
      obtain rfl := hbar t r rfl
      exact ⟨branches.reverse, opened, hsteps⟩

theorem FailsWith.regex {e : CompileError} {t : Term} (h : FailsWith config e t.factors) :
    (Regex.term t).FailsWith config e := by
  constructor
  · intro groups made
    rw [Regex.rows, List.map_singleton, addBranches, addForest_row, h]
  · intro groups made
    rw [addForest_term, h]

theorem FailsWith.bar {e : CompileError} {t : Term} (h : FailsWith config e t.factors) (r : Regex) :
    (Regex.bar t r).FailsWith config e := by
  have hall (groups : Nat) (made : List (List Step)) :
      addBranches config groups made ((Regex.bar t r).rows.map Term.tree) = .error e := by
    rw [Regex.rows, List.map_cons, addBranches, addForest_row, h]
  refine ⟨hall, fun groups made => ?_⟩
  rw [addForest_bar, hall]

theorem Regex.FailsWith.bar {e : CompileError} {t : Term} {r : Regex} (h : r.FailsWith config e)
    (ht : t.Makes config) : (Regex.bar t r).FailsWith config e := by
  have hall (groups : Nat) (made : List (List Step)) :
      addBranches config groups made ((Regex.bar t r).rows.map Term.tree) = .error e := by
    obtain ⟨steps, between, -, hsteps⟩ := ht groups
    rw [Regex.rows, List.map_cons, addBranches_cons_ok (hsteps []), h.1]
  refine ⟨hall, fun groups made => ?_⟩
  rw [addForest_bar, hall]

theorem Regex.Makes.group {r : Regex} (h : r.Makes config) :
    MakesStep config (Base.group r).tree := by
  intro groups
  obtain ⟨-, steps, opened, -, hsteps, -⟩ := h (groups + 1)
  refine ⟨.group groups (steps ++ []).reverse, opened, fun made => ?_⟩
  rw [addForest_group, hsteps]
  exact addForest.eq_1 _ _ _

theorem Regex.FailsWith.group {e : CompileError} {r : Regex} (h : r.FailsWith config e) :
    PatternText.FailsWith config e [(Base.group r).tree] := by
  intro groups made
  rw [addForest_group, h.2]

/-! ### The two outcomes -/

theorem factor_outcome {b : Base}
    (h : (MakesStep config b.tree ∧ KeepsAll config b.tree) ∨
      ∃ e, e.Possible b.tree ∧ FailsWith config e [b.tree]) (xs : List Quantifier) :
    (FactorMakes config b xs ∧ KeepsAll config (factorTree b.tree xs)) ∨
      ∃ e, e.Possible (factorTree b.tree xs) ∧ FailsWith config e [factorTree b.tree xs] := by
  have hfactor (groups : Nat) (made : List Step) :
      addForest config groups made [factorTree b.tree xs] =
        addForest config groups made (b.tree :: xs.map Quantifier.tree) := by
    rw [addForest_factorTree, List.append_nil]
  rcases h with ⟨hbase, hkeeps⟩ | ⟨e, hpossible, hfails⟩
  · rcases quantifiers_outcome config xs with hquantifiers | ⟨e, ⟨x, hx, hpossible⟩, hfails⟩
    · refine .inl ⟨fun groups => ?_, keepsAll_factorTree xs hkeeps⟩
      obtain ⟨operand, between, hoperand⟩ := hbase groups
      obtain ⟨step, hwraps, hwrap⟩ := hquantifiers operand
      refine ⟨operand, step, between, hoperand, hwraps, fun made => ?_⟩
      rw [hfactor, addForest_cons_ok (hoperand made), hwrap]
    · refine .inr ⟨e, ?_, fun groups made => ?_⟩
      · have hrow : e.Possible (multipliers.rowTree (xs.map Quantifier.tree)) :=
          possible_of_rowTree hpossible (List.mem_map_of_mem hx)
        exact hrow.of_child (List.mem_cons_of_mem _ (List.mem_singleton_self _))
      · obtain ⟨operand, between, hoperand⟩ := hbase groups
        rw [hfactor, addForest_cons_ok (hoperand made), hfails]
  · refine .inr ⟨e, hpossible.of_child List.mem_cons_self, fun groups made => ?_⟩
    rw [hfactor, hfails.first]

mutual

theorem Base.outcome (config : Config) (b : Base) :
    (MakesStep config b.tree ∧ KeepsAll config b.tree) ∨
      ∃ e, e.Possible b.tree ∧ FailsWith config e [b.tree] := by
  cases b with
  | atom a =>
    rcases a.outcome config with hmakes | hfails
    · refine .inl ⟨hmakes, keepsAll_node (keepsOperands_of_ne (by decide) (by decide) _) ?_⟩
      exact List.forall_mem_singleton.2 a.keepsAll_inner
    · exact .inr hfails
  | group r =>
    rcases Regex.outcome config r with ⟨hmakes, hkeeps⟩ | ⟨e, hpossible, hfails⟩
    · refine .inl ⟨hmakes.group, keepsAll_node (keepsOperands_of_ne (by decide) (by decide) _) ?_⟩
      refine List.forall_mem_singleton.2 ?_
      refine keepsAll_node (keepsOperands_of_ne (by decide) (by decide) _) ?_
      refine List.forall_mem_cons.2 ⟨keepsAll_leaf _, List.forall_mem_cons.2 ⟨hkeeps, ?_⟩⟩
      exact List.forall_mem_singleton.2 (keepsAll_leaf _)
    · refine .inr ⟨e, ?_, hfails.group⟩
      have hparens : e.Possible (parens.node [.leaf (some '('), r.tree, .leaf (some ')')]) :=
        hpossible.of_child (List.mem_cons_of_mem _ List.mem_cons_self)
      exact hparens.of_child (List.mem_singleton_self _)

theorem Term.outcome (config : Config) (t : Term) :
    (t.Makes config ∧ KeepsAll config t.tree) ∨
      ∃ e, e.Possible t.tree ∧ FailsWith config e t.factors := by
  cases t with
  | nil =>
    refine .inl ⟨.nil, keepsAll_node Term.Makes.nil.keepsOperands ?_⟩
    exact List.forall_mem_singleton.2 (keepsAll_leaf none)
  | cons b xs t =>
    rcases factor_outcome (Base.outcome config b) xs with
      ⟨hfactor, hkeeps⟩ | ⟨e, hpossible, hfails⟩
    · rcases Term.outcome config t with ⟨ht, hkeeps'⟩ | ⟨e, hpossible, hfails⟩
      · have hmakes := ht.cons hfactor
        refine .inl ⟨hmakes, keepsAll_node hmakes.keepsOperands ?_⟩
        exact List.forall_mem_cons.2 ⟨hkeeps, List.forall_mem_singleton.2 hkeeps'⟩
      · refine .inr ⟨e, ?_, hfails.later hfactor.makesStep⟩
        exact hpossible.of_child (List.mem_cons_of_mem _ (List.mem_singleton_self _))
    · exact .inr ⟨e, hpossible.of_child List.mem_cons_self, hfails.first t.factors⟩

theorem Regex.outcome (config : Config) (r : Regex) :
    (r.Makes config ∧ KeepsAll config r.tree) ∨
      ∃ e, e.Possible r.tree ∧ r.FailsWith config e := by
  cases r with
  | term t =>
    rcases Term.outcome config t with ⟨ht, hkeeps⟩ | ⟨e, hpossible, hfails⟩
    · refine .inl ⟨ht.regex, keepsAll_node ht.regex.keepsOperands ?_⟩
      exact List.forall_mem_singleton.2 hkeeps
    · exact .inr ⟨e, hpossible.of_child (List.mem_singleton_self _), hfails.regex⟩
  | bar t r =>
    have hinside {e : CompileError} {u : ParseTree} (h : e.Possible u)
        (hu : u ∈ [t.tree, .leaf (some '|'), r.tree]) : e.Possible (Regex.bar t r).tree := by
      have halternatives : e.Possible (Part.alternatives.node [t.tree, .leaf (some '|'), r.tree]) :=
        h.of_child hu
      exact halternatives.of_child (List.mem_singleton_self _)
    rcases Term.outcome config t with ⟨ht, hkeeps⟩ | ⟨e, hpossible, hfails⟩
    · rcases Regex.outcome config r with ⟨hr, hkeeps'⟩ | ⟨e, hpossible, hfails⟩
      · have hmakes := hr.bar ht
        refine .inl ⟨hmakes, keepsAll_node hmakes.keepsOperands ?_⟩
        refine List.forall_mem_singleton.2 ?_
        refine keepsAll_node (keepsOperands_of_ne (by decide) (by decide) _) ?_
        refine List.forall_mem_cons.2 ⟨hkeeps, List.forall_mem_cons.2 ⟨keepsAll_leaf _, ?_⟩⟩
        exact List.forall_mem_singleton.2 hkeeps'
      · refine .inr ⟨e, hinside hpossible (by simp), hfails.bar ht⟩
    · exact .inr ⟨e, hinside hpossible List.mem_cons_self, hfails.bar r⟩

end

end Outcomes

/-! ### Programs -/

namespace Program

/-- A program is built where the pattern makes steps, and each error is one of the possible ones. -/
theorem ofTree_outcome (config : Config) (r : Regex) :
    (∀ program, ofTree config r.tree = .ok program → KeepsAll config r.tree) ∧
      ∀ e, ofTree config r.tree = .error e → e.Possible r.tree := by
  rcases Regex.outcome config r with ⟨hmakes, hkeeps⟩ | ⟨cause, hpossible, hfails⟩
  · refine ⟨fun _ _ => hkeeps, fun e he => ?_⟩
    obtain ⟨-, steps, opened, -, hsteps, -⟩ := hmakes 0
    rw [ofTree, hsteps] at he
    dsimp only at he
    split at he
    · cases he
      exact .tooDeep
    · cases he
  · have hforest := hfails.2 0 []
    refine ⟨fun program hprogram => ?_, fun e he => ?_⟩
    · rw [ofTree, hforest] at hprogram
      cases hprogram
    · rw [ofTree, hforest] at he
      cases he
      exact hpossible

/-- In the tree of a pattern quantifiers always have their own operands. Where a program is built, each
row makes one step for each of its factors, the step of its base wrapped by its multipliers, and
alternatives make one step. No character is matched as a digit. Only bounds that can never be met,
numbers of places beyond every word and too many levels are errors; an operand is never missing. -/
theorem operands_of_parse (config : Config) {pattern : String} {tree : ParseTree}
    (h : parse patternGrammar pattern = .ok tree) :
    (∀ program, ofTree config tree = .ok program →
      ∀ t : ParseTree, t.LiesIn tree → t.KeepsOperands config) ∧
    (∀ t : ParseTree, t.LiesIn tree → t.bears "CHAR" = true →
      ∀ u ∈ t.children, u.bears "DIGIT" = false) ∧
    (∀ e, ofTree config tree = .error e → e.Possible tree) ∧
    ∀ construct, ofTree config tree ≠ .error (.missingOperand construct) := by
  have hread : regex.reads pattern.toList = some (tree, []) :=
    (parse_eq_ok_iff patternGrammar_not_leftRecursive).1 h
  obtain ⟨r, -, rfl⟩ := parse_eq_ok_iff_regex.1 h
  obtain ⟨hkeeps, hpossible⟩ := ofTree_outcome config r
  refine ⟨hkeeps, fun t ht hname => ?_, hpossible, fun construct hmissing => ?_⟩
  · obtain ⟨cs, rest, hchar⟩ := exists_reads_of_bears (q := char) hread ht hname
    obtain ⟨-, -, trees, rfl, -⟩ := exists_row_of_match hchar
    exact not_digit_of_reads_char hchar
  · cases hpossible _ hmissing

/-- A digit with a star, or a letter. -/
theorem starredDigit_operands : ∃ tree program,
    parse patternGrammar "7*|b" = .ok tree ∧
    ofTree (.ofSettings {}) tree = .ok program ∧
    program.steps = [.alternation
      [[.repetition (.literal "7") .zeroOrMore "*"], [.literal "b"]]] ∧
    (∀ t : ParseTree, t.LiesIn tree → t.KeepsOperands (.ofSettings {})) ∧
    (∀ t : ParseTree, t.LiesIn tree → t.bears "CHAR" = true →
      ∀ u ∈ t.children, u.bears "DIGIT" = false) ∧
    ∀ e, ofTree (.ofSettings {}) tree = .error e → e.Possible tree := by
  have hdigit : ofText (.ofSettings {}) "7" = .ok ⟨[.literal "7"], 0⟩ :=
    ofText_plain (c := '7') (by decide)
  have hletter : ofText (.ofSettings {}) "b" = .ok ⟨[.literal "b"], 0⟩ :=
    ofText_plain (c := 'b') (by decide)
  obtain ⟨step, hstep, hquantifier⟩ := ofText_quantifier hdigit
    (isFactor_base (.atom (.plain '7' (by decide))))
  obtain rfl := List.singleton_inj.1 hstep
  have hstarred := (hquantifier .zeroOrMore rfl).trans (limited_of_le (by decide))
  have hpattern := (ofText_bar hstarred hletter).trans (limited_of_le (by decide))
  have htext : "7" ++ Quantifier.zeroOrMore.toString ++ "|" ++ "b" = "7*|b" := by decide +kernel
  rw [htext, ofText] at hpattern
  cases hparse : parse patternGrammar "7*|b" with
  | error e =>
    rw [hparse] at hpattern
    cases hpattern
  | ok tree =>
    rw [hparse] at hpattern
    obtain ⟨hkeeps, hchar, hpossible, -⟩ := operands_of_parse (.ofSettings {}) hparse
    exact ⟨tree, _, rfl, hpattern, rfl, hkeeps _ hpattern, hchar, hpossible⟩

end Program

end PatternText
