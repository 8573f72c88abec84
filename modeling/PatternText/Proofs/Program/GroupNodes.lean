import PatternText.Proofs.Pattern.Openings
import PatternText.Proofs.Program.Operands

/-! The nodes of groups. The nodes of a tree that bear a name are listed with the places where their texts
begin, a node before those below it. In the tree of a pattern the nodes of groups begin, in this order, at
the parentheses where the scanner says that a group opens; the other constructs have neither. -/

namespace PatternText

open ParseTree PatternText.Part

/-! ### Nodes and their places -/

namespace ParseTree

mutual

/-- The nodes with this name in a tree whose text begins at this place, each with the place of its own
text. -/
def nodesAt (name : String) (place : Nat) : ParseTree → List (Nat × ParseTree)
  | leaf _ => []
  | node title children =>
    (if (node title children).bears name then [(place, node title children)] else []) ++
      nodesAtAll name place children

def nodesAtAll (name : String) (place : Nat) : List ParseTree → List (Nat × ParseTree)
  | [] => []
  | t :: ts => t.nodesAt name place ++ nodesAtAll name (place + t.chars.length) ts

end

/-- The nodes of a tree that bear a name, from the front of the text on. -/
def nodesNamed (t : ParseTree) (name : String) : List (Nat × ParseTree) := t.nodesAt name 0

variable {name : String}

mutual

/-- The text of a node stands at its place. -/
theorem exists_around_of_mem_nodesAt {place : Nat} {t : ParseTree} {site : Nat × ParseTree}
    (h : site ∈ t.nodesAt name place) :
    ∃ front back, t.chars = front ++ site.2.chars ++ back ∧ site.1 = place + front.length := by
  cases t with
  | leaf c => cases h
  | node title children =>
    rw [nodesAt, List.mem_append] at h
    rcases h with h | h
    · split at h
      · obtain rfl := List.mem_singleton.1 h
        exact ⟨[], [], by simp, rfl⟩
      · cases h
    · exact exists_around_of_mem_nodesAtAll h

theorem exists_around_of_mem_nodesAtAll {place : Nat} {ts : List ParseTree} {site : Nat × ParseTree}
    (h : site ∈ nodesAtAll name place ts) :
    ∃ front back, charsAll ts = front ++ site.2.chars ++ back ∧ site.1 = place + front.length := by
  cases ts with
  | nil => cases h
  | cons t ts =>
    rw [nodesAtAll, List.mem_append] at h
    rw [charsAll]
    rcases h with h | h
    · obtain ⟨front, back, hchars, hplace⟩ := exists_around_of_mem_nodesAt h
      exact ⟨front, back ++ charsAll ts, by rw [hchars, List.append_assoc], hplace⟩
    · obtain ⟨front, back, hchars, hplace⟩ := exists_around_of_mem_nodesAtAll h
      refine ⟨t.chars ++ front, back, by simp [hchars], ?_⟩
      rw [hplace, List.length_append, Nat.add_assoc]

end

mutual

theorem nodesAt_of_lacks {t : ParseTree} (h : Lacks name [t]) (place : Nat) :
    t.nodesAt name place = [] := by
  cases t with
  | leaf c => rfl
  | node title children =>
    have hother := h _ (List.mem_singleton_self _) _ (liesIn_self _)
    have hbelow := h.below
    rw [List.append_nil] at hbelow
    rw [nodesAt, hother, if_neg Bool.false_ne_true, List.nil_append]
    exact nodesAtAll_of_lacks hbelow place

theorem nodesAtAll_of_lacks {ts : List ParseTree} (h : Lacks name ts) (place : Nat) :
    nodesAtAll name place ts = [] := by
  cases ts with
  | nil => rfl
  | cons t ts =>
    obtain ⟨ht, hts⟩ := List.forall_mem_cons.1 h
    rw [nodesAtAll, nodesAt_of_lacks (List.forall_mem_singleton.2 ht), nodesAtAll_of_lacks hts]
    rfl

end

/-- Another part has no node of a group above those of its children. -/
theorem nodesAt_other {p : Part} (hne : p ≠ parens) (place : Nat) (ts : List ParseTree) :
    (p.node ts).nodesAt "PARENS" place = nodesAtAll "PARENS" place ts := by
  have hother : (p.node ts).bears "PARENS" = false := bears_eq_false (q := parens) hne ts
  rw [Part.node] at hother ⊢
  rw [nodesAt, hother]
  rfl

end ParseTree

/-! ### The trees of syntax -/

/-- The tree of a group. -/
def Regex.groupTree (r : Regex) : ParseTree :=
  Part.parens.node [.leaf (some '('), r.tree, .leaf (some ')')]

theorem Base.chars_tree (b : Base) : b.tree.chars = b.text :=
  tree_chars_of_reads (reads_base b [])

theorem Term.chars_tree (t : Term) : t.tree.chars = t.text :=
  tree_chars_of_reads (reads_term t (.inl rfl))

theorem Regex.chars_tree (r : Regex) : r.tree.chars = r.text :=
  tree_chars_of_reads (reads_regex r (.inl rfl))

theorem Regex.chars_groupTree (r : Regex) : r.groupTree.chars = '(' :: (r.text ++ [')']) := by
  show '(' :: (r.tree.chars ++ [')']) = _
  rw [r.chars_tree]

theorem Regex.text_groupTree (r : Regex) :
    r.groupTree.text = "(" ++ String.ofList r.text ++ ")" := by
  rw [text_eq, ← String.toList_inj]
  simp [r.chars_groupTree]

theorem Quantifier.reads_multipliers (xs : List Quantifier) :
    multipliers.reads (textAll xs ++ []) = some (multipliers.rowTree (xs.map tree), []) :=
  reads_items rfl Quantifier.text xs (fun x _ _ => reads_multiplier x)
    (reads_nil_eq_none (by decide))

section Nodes

variable (place : Nat)

theorem lacks_parens_of_reads {p : Part} (hp : p ∈ innerParts) {cs rest : List Char} {t : ParseTree}
    (h : p.reads cs = some (t, rest)) : Lacks "PARENS" [t] :=
  lacks_of_reads (q := parens) closed_innerParts hp (by decide +kernel) h

theorem nodesAt_atom (a : Atom) : (Base.atom a).tree.nodesAt "PARENS" place = [] := by
  obtain ⟨p, hp, cs, rest, hread⟩ := a.exists_reads_inner
  rw [Base.tree, nodesAt_other (by decide)]
  exact nodesAtAll_of_lacks (lacks_parens_of_reads hp hread) place

theorem nodesAt_group (r : Regex) : (Base.group r).tree.nodesAt "PARENS" place =
    (place, r.groupTree) :: r.tree.nodesAt "PARENS" (place + 1) := by
  have hgroup : r.groupTree.bears "PARENS" = true := beq_self_eq_true "PARENS"
  have hnodes : r.groupTree.nodesAt "PARENS" place =
      (if r.groupTree.bears "PARENS" then [(place, r.groupTree)] else []) ++
        nodesAtAll "PARENS" place [.leaf (some '('), r.tree, .leaf (some ')')] := rfl
  rw [Base.tree, nodesAt_other (by decide), ← Regex.groupTree, nodesAtAll, nodesAtAll, List.append_nil,
    hnodes, if_pos hgroup]
  simp [nodesAtAll, nodesAt, chars]

theorem nodesAt_cons (b : Base) (xs : List Quantifier) (t : Term) :
    (Term.cons b xs t).tree.nodesAt "PARENS" place =
      b.tree.nodesAt "PARENS" place ++
        t.tree.nodesAt "PARENS" (place + b.text.length + (Quantifier.textAll xs).length) := by
  have hquantifiers := Quantifier.reads_multipliers xs
  have hnone : nodesAtAll "PARENS" (place + b.text.length)
      [multipliers.rowTree (xs.map Quantifier.tree)] = [] :=
    nodesAtAll_of_lacks (lacks_parens_of_reads (by decide +kernel) hquantifiers) _
  have hfactor : (factorTree b.tree xs).nodesAt "PARENS" place = b.tree.nodesAt "PARENS" place := by
    rw [factorTree, nodesAt_other (by decide), nodesAtAll, b.chars_tree, hnone, List.append_nil]
  have hchars : (factorTree b.tree xs).chars = b.text ++ Quantifier.textAll xs := by
    show b.tree.chars ++ ((multipliers.rowTree (xs.map Quantifier.tree)).chars ++ []) = _
    rw [b.chars_tree, tree_chars_of_reads hquantifiers, List.append_nil]
  show (term.node [factorTree b.tree xs, t.tree]).nodesAt "PARENS" place = _
  rw [nodesAt_other (by decide), nodesAtAll, nodesAtAll, nodesAtAll, List.append_nil, hfactor, hchars,
    List.length_append, Nat.add_assoc]

theorem nodesAt_term (t : Term) :
    (Regex.term t).tree.nodesAt "PARENS" place = t.tree.nodesAt "PARENS" place := by
  rw [Regex.tree, nodesAt_other (by decide)]
  exact List.append_nil _

theorem nodesAt_bar (t : Term) (r : Regex) : (Regex.bar t r).tree.nodesAt "PARENS" place =
    t.tree.nodesAt "PARENS" place ++ r.tree.nodesAt "PARENS" (place + t.text.length + 1) := by
  rw [Regex.tree, nodesAt_other (by decide), nodesAtAll, nodesAtAll, List.append_nil,
    nodesAt_other (by decide)]
  show t.tree.nodesAt "PARENS" place ++ nodesAtAll "PARENS" (place + t.tree.chars.length)
    [.leaf (some '|'), r.tree] = _
  rw [t.chars_tree]
  simp [nodesAtAll, nodesAt, chars]

end Nodes

/-! ### Groups open where their nodes begin -/

open Region in
mutual

theorem Base.openings (b : Base) (place : Nat) (rest : List Char) :
    outside.openings place (b.text ++ rest) =
      (b.tree.nodesAt "PARENS" place).map Prod.fst ++
        outside.openings (place + b.text.length) rest := by
  cases b with
  | atom a =>
    rw [nodesAt_atom]
    exact a.quiet place rest
  | group r =>
    have hclose : Quiet [')'] := .singleton (by decide)
    have hlength : place + (Base.group r).text.length = place + 1 + r.text.length + 1 := by
      rw [Base.text, List.length_cons, List.length_append, List.length_singleton]
      omega
    rw [nodesAt_group, hlength, Base.text, List.cons_append, List.append_assoc, openings_parenthesis,
      Regex.openings r, hclose]
    rfl

theorem Term.openings (t : Term) (place : Nat) (rest : List Char) :
    outside.openings place (t.text ++ rest) =
      (t.tree.nodesAt "PARENS" place).map Prod.fst ++
        outside.openings (place + t.text.length) rest := by
  cases t with
  | nil => rfl
  | cons b xs t =>
    rw [nodesAt_cons, Term.text, List.append_assoc, List.append_assoc, Base.openings b,
      Quantifier.quiet_textAll xs, Term.openings t, List.map_append, List.append_assoc,
      List.length_append, List.length_append, ← Nat.add_assoc, ← Nat.add_assoc]

theorem Regex.openings (r : Regex) (place : Nat) (rest : List Char) :
    outside.openings place (r.text ++ rest) =
      (r.tree.nodesAt "PARENS" place).map Prod.fst ++
        outside.openings (place + r.text.length) rest := by
  cases r with
  | term t =>
    rw [nodesAt_term]
    exact Term.openings t place rest
  | bar t r =>
    have hbar : Quiet ['|'] := .singleton (by decide)
    have hlength : place + (Regex.bar t r).text.length = place + t.text.length + 1 + r.text.length := by
      rw [Regex.text, List.length_append, List.length_cons]
      omega
    rw [nodesAt_bar, hlength, Regex.text, List.append_assoc, List.cons_append, ← List.singleton_append,
      Term.openings t, hbar, Regex.openings r, List.map_append, List.append_assoc]
    rfl

end

/-- In the tree of a pattern the groups begin at the opening parentheses of the text, in order. -/
theorem openParentheses_eq (r : Regex) :
    openParentheses (String.ofList r.text) = (r.tree.nodesNamed "PARENS").map Prod.fst := by
  have hall := Regex.openings r 0 []
  rw [List.append_nil] at hall
  rw [openParentheses, String.toList_ofList, hall]
  exact List.append_nil _

end PatternText
