import PatternText.Proofs.Pattern.Atom

/-! The syntax of patterns. A pattern is a row of bases, each with its quantifiers, or several such rows
with bars between them; a base is an atom or a pattern in parentheses. A base ends by itself. Nothing
that ends one with its quantifiers can be taken for another quantifier, and at a bar, a closing
parenthesis or the end of the text no further base begins, so the text of a pattern is read as the
pattern it was written from. -/

namespace PatternText

mutual

/-- What a quantifier can repeat. -/
inductive Base where
  | atom (atom : Atom)
  | group (inner : Regex)

/-- A row of bases with their quantifiers. -/
inductive Term where
  | nil
  | cons (base : Base) (quantifiers : List Quantifier) (tail : Term)

/-- A pattern: a single row, or a row and after a bar the other ones. -/
inductive Regex where
  | term (term : Term)
  | bar (term : Term) (others : Regex)

end

namespace Quantifier

def textAll (xs : List Quantifier) : List Char := xs.flatMap text

theorem text_ne_nil (x : Quantifier) : x.text ≠ [] := by
  cases x <;> exact List.cons_ne_nil _ _

end Quantifier

mutual

def Base.text : Base → List Char
  | .atom a => a.text
  | .group r => '(' :: (r.text ++ [')'])

def Term.text : Term → List Char
  | .nil => []
  | .cons b xs t => b.text ++ (Quantifier.textAll xs ++ t.text)

def Regex.text : Regex → List Char
  | .term t => t.text
  | .bar t r => t.text ++ '|' :: r.text

end

theorem Base.text_ne_nil (b : Base) : b.text ≠ [] := by
  cases b with
  | atom a => cases a <;> exact List.cons_ne_nil _ _
  | group r => exact List.cons_ne_nil _ _

/-- The tree of a base, given that of the base itself, and its quantifiers. -/
def factorTree (base : ParseTree) (xs : List Quantifier) : ParseTree :=
  Part.factor.node [base, Part.multipliers.rowTree (xs.map Quantifier.tree)]

mutual

def Base.tree : Base → ParseTree
  | .atom a => Part.base.node [a.inner]
  | .group r => Part.base.node [Part.parens.node [.leaf (some '('), r.tree, .leaf (some ')')]]

/-- The trees of the bases of a row with their quantifiers. -/
def Term.factors : Term → List ParseTree
  | .nil => []
  | .cons b xs t => factorTree b.tree xs :: t.factors

def Regex.tree : Regex → ParseTree
  | .term t => Part.regex.node [Part.term.rowTree t.factors]
  | .bar t r => Part.regex.node
      [Part.alternatives.node [Part.term.rowTree t.factors, .leaf (some '|'), r.tree]]

end

def Term.tree (t : Term) : ParseTree := Part.term.rowTree t.factors

/-- The text ends here or goes on with one of these characters. -/
def EndsAt (chars : List Char) (rest : List Char) : Prop :=
  rest = [] ∨ Grammar.beginsIn [.oneOf chars] rest = true

theorem EndsAt.head?_eq_none_or {chars rest : List Char} (h : EndsAt chars rest) :
    rest.head? = none ∨ ∃ c ∈ chars, rest.head? = some c := by
  rcases h with rfl | h
  · exact .inl rfl
  · cases rest with
    | nil => exact .inl rfl
    | cons c rest =>
      rw [Grammar.beginsIn, Bool.and_eq_true, Terminal.accepts, List.contains_iff_mem] at h
      exact .inr ⟨c, h.1, rfl⟩

theorem EndsAt.mono {chars chars' rest : List Char} (h : EndsAt chars rest)
    (hsub : ∀ c ∈ chars, c ∈ chars') : EndsAt chars' rest := by
  rcases h.head?_eq_none_or with hnone | ⟨c, hc, hsome⟩
  · exact .inl (List.head?_eq_none_iff.1 hnone)
  · obtain ⟨rest, rfl⟩ := List.head?_eq_some_iff.1 hsome
    exact .inr (Grammar.beginsIn_oneOf (hsub c hc) rfl)

theorem EndsAt.head?_ne {chars rest : List Char} (h : EndsAt chars rest) {c : Char}
    (hc : c ∉ chars) : rest.head? ≠ some c := by
  intro hhead
  rcases h.head?_eq_none_or with hnone | ⟨d, hd, hsome⟩
  · rw [hnone] at hhead
    cases hhead
  · rw [hsome] at hhead
    exact hc (Option.some.inj hhead ▸ hd)

namespace Part

open Grammar PatternText.Symbol

variable {cs rest : List Char}

theorem reads_eq_none_of_endsAt {p : Part} {chars : List Char} (hp : p ∉ nullable)
    (hrefuses : p.refuses [.oneOf chars] = true) (h : EndsAt chars rest) : p.reads rest = none := by
  rcases h with rfl | h
  · exact reads_nil_eq_none hp
  · exact reads_eq_none _ hrefuses h

/-- A base with its quantifiers is read up to where no further quantifier begins. -/
theorem reads_factor {text : List Char} {tree : ParseTree} (xs : List Quantifier)
    (hbase : ∀ cs, base.reads (text ++ cs) = some (tree, cs)) (hstop : multiplier.reads rest = none) :
    factor.reads (text ++ (Quantifier.textAll xs ++ rest)) = some (factorTree tree xs, rest) := by
  have hquantifiers := reads_items (p := multipliers) rfl Quantifier.text xs
    (fun x _ _ => reads_multiplier x) hstop
  refine reads_of_single rfl ?_
  rw [row_ref (hbase _), Quantifier.textAll, row_ref hquantifiers, row_nil]
  rfl

/-- No quantifier begins where a base does. -/
theorem reads_multiplier_base (b : Base) : multiplier.reads (b.text ++ rest) = none := by
  cases b with
  | atom a => exact reads_multiplier_atom a
  | group r => exact reads_eq_none [.oneOf ['(']] (by decide +kernel) rfl

/-- No quantifier begins where a row goes on or ends. -/
theorem reads_multiplier_term (t : Term) (h : EndsAt ['|', ')'] rest) :
    multiplier.reads (t.text ++ rest) = none := by
  cases t with
  | nil => exact reads_eq_none_of_endsAt (by decide) (by decide +kernel) h
  | cons b xs t =>
    rw [Term.text, List.append_assoc]
    exact reads_multiplier_base b

mutual

theorem reads_base (b : Base) (rest : List Char) :
    base.reads (b.text ++ rest) = some (b.tree, rest) := by
  cases b with
  | atom a => exact reads_base_atom a
  | group r =>
    have hinner := reads_regex r (.inr rfl : EndsAt [')'] (')' :: rest))
    have hparens : parens.reads ((Base.group r).text ++ rest) =
        some (parens.node [.leaf (some '('), r.tree, .leaf (some ')')], rest) := by
      refine reads_of_single rfl ?_
      rw [Base.text, List.cons_append, List.append_assoc, row_lit, List.singleton_append,
        row_ref hinner, row_lit, row_nil]
      rfl
    refine reads_of_only 2 rfl [.oneOf ['(']] (by decide +kernel) rfl ?_
    rw [row_ref hparens, row_nil]
    rfl

theorem reads_term (t : Term) {rest : List Char} (h : EndsAt ['|', ')'] rest) :
    term.reads (t.text ++ rest) = some (t.tree, rest) := by
  cases t with
  | nil => exact reads_row_nil rfl (reads_eq_none_of_endsAt (by decide) (by decide +kernel) h)
  | cons b xs t =>
    rw [Term.text, List.append_assoc, List.append_assoc]
    have hfactor := reads_factor xs (reads_base b) (reads_multiplier_term t h)
    exact reads_row_cons rfl hfactor (reads_term t h)

theorem reads_regex (r : Regex) {rest : List Char} (h : EndsAt [')'] rest) :
    regex.reads (r.text ++ rest) = some (r.tree, rest) := by
  cases r with
  | term t =>
    have hterm := reads_term t (h.mono (by simp) : EndsAt ['|', ')'] rest)
    have halternatives : alternatives.reads (t.text ++ rest) = none := by
      apply reads_single_eq_none rfl
      rw [row_ref hterm, row_lit_eq_none (h.head?_ne (by decide +kernel))]
      rfl
    refine reads_of_alone 0 rfl ?_ ?_
    · intro q hq
      obtain rfl := List.mem_singleton.1 hq
      exact row_ref_none halternatives
    · rw [Regex.text, row_ref hterm, row_nil]
      rfl
  | bar t r =>
    have hterm := reads_term t (.inr rfl : EndsAt ['|', ')'] ('|' :: (r.text ++ rest)))
    have halternatives : alternatives.reads (t.text ++ '|' :: (r.text ++ rest)) =
        some (alternatives.node [t.tree, .leaf (some '|'), r.tree], rest) := by
      refine reads_of_single rfl ?_
      rw [row_ref hterm, row_lit, row_ref (reads_regex r h), row_nil]
      rfl
    rw [Regex.text, List.append_assoc, List.cons_append]
    apply reads_of_second rfl
    · rw [row_ref halternatives, row_nil]
      rfl
    · -- a row alone stops before the bar
      intro m hm
      rw [row_ref hterm, row_nil] at hm
      obtain rfl := Option.some.inj hm
      simp only [List.length_cons, List.length_append]
      omega

end

end Part

end PatternText
