import Mathlib.Data.Finset.Card
import Mathlib.Data.Fintype.Basic
import Mathlib.Logic.Relation
import PatternText.Grammar.Basic

/-! Left recursion. A non-terminal is entered at the place of another one when all symbols before it in
a production can match the empty text; a grammar is left-recursive when a non-terminal can enter itself
in this way. Without left recursion the non-terminals have a rank, below their number, that falls
whenever one is entered at the place of another. -/

namespace PatternText

namespace Grammar

/-- The productions of a non-terminal; a number that names none has none. -/
def productionsOf (g : Grammar) (id : Nat) : List (List Symbol) :=
  ((g.nonTerminals[id]?).map NonTerminal.productions).getD []

theorem productionsOf_eq_nil {g : Grammar} {id : Nat} (h : ¬id < g.size) :
    g.productionsOf id = [] := by
  rw [productionsOf, Array.getElem?_eq_none (Nat.not_lt.1 h)]
  rfl

theorem lt_size_of_mem_productionsOf {g : Grammar} {id : Nat} {production : List Symbol}
    (h : production ∈ g.productionsOf id) : id < g.size := by
  by_contra hid
  rw [productionsOf_eq_nil hid] at h
  exact List.not_mem_nil h

/-- Productions name non-terminals of the grammar only. -/
def Closed (g : Grammar) : Prop :=
  ∀ id, ∀ production ∈ g.productionsOf id, ∀ b, .nonTerminal b ∈ production → b < g.size

/-- The symbol can match the empty text. -/
inductive Nullable (g : Grammar) : Symbol → Prop where
  | epsilon : Nullable g (.terminal .epsilon)
  | nonTerminal {id : Nat} {production : List Symbol} (mem : production ∈ g.productionsOf id)
      (all : ∀ s ∈ production, Nullable g s) : Nullable g (.nonTerminal id)

/-- The non-terminal `b` can be entered at the place where `a` is. -/
def Enters (g : Grammar) (a b : Nat) : Prop :=
  ∃ before after, before ++ .nonTerminal b :: after ∈ g.productionsOf a ∧
    ∀ s ∈ before, g.Nullable s

/-- Some non-terminal enters itself, directly or through others. -/
def LeftRecursive (g : Grammar) : Prop :=
  ∃ a, Relation.TransGen g.Enters a a

open Classical in
/-- The non-terminals that one can enter at its place, directly or through others. -/
noncomputable def entered (g : Grammar) (a : Nat) : Finset Nat :=
  (Finset.range g.size).filter fun b => Relation.TransGen g.Enters a b

/-- The number of non-terminals entered. -/
noncomputable def rank (g : Grammar) (a : Nat) : Nat := (g.entered a).card

theorem mem_entered {g : Grammar} {a b : Nat} :
    b ∈ g.entered a ↔ b < g.size ∧ Relation.TransGen g.Enters a b := by
  simp only [entered, Finset.mem_filter, Finset.mem_range]

/-- Whatever `b` enters is entered by `a` as well, and so is `b`, which does not enter itself. -/
theorem rank_lt_of_enters {g : Grammar} (hg : ¬g.LeftRecursive) {a b : Nat} (h : g.Enters a b)
    (hb : b < g.size) : g.rank b < g.rank a := by
  apply Finset.card_lt_card
  rw [Finset.ssubset_iff_of_subset]
  · refine ⟨b, mem_entered.2 ⟨hb, .single h⟩, fun hmem => ?_⟩
    exact hg ⟨b, (mem_entered.1 hmem).2⟩
  · intro c hc
    obtain ⟨hlt, hbc⟩ := mem_entered.1 hc
    exact mem_entered.2 ⟨hlt, .head h hbc⟩

theorem rank_lt_size {g : Grammar} (hg : ¬g.LeftRecursive) {a : Nat} (ha : a < g.size) :
    g.rank a < g.size := by
  have hsub : g.entered a ⊆ (Finset.range g.size).erase a := by
    intro b hb
    obtain ⟨hlt, hab⟩ := mem_entered.1 hb
    refine Finset.mem_erase.2 ⟨?_, Finset.mem_range.2 hlt⟩
    rintro rfl
    exact hg ⟨b, hab⟩
  calc
    g.rank a ≤ ((Finset.range g.size).erase a).card := Finset.card_le_card hsub
    _ < (Finset.range g.size).card := Finset.card_erase_lt_of_mem (Finset.mem_range.2 ha)
    _ = g.size := Finset.card_range _

/-- A grammar whose non-terminals can be ranked so that entering lowers the rank is not
left-recursive. -/
theorem not_leftRecursive_of_rank {g : Grammar} (rank : Nat → Nat)
    (h : ∀ a b, g.Enters a b → rank b < rank a) : ¬g.LeftRecursive := by
  rintro ⟨a, ha⟩
  have hlt : ∀ {b}, Relation.TransGen g.Enters a b → rank b < rank a := by
    intro b hb
    induction hb with
    | single hab => exact h _ _ hab
    | tail _ hbc ih => exact (h _ _ hbc).trans ih
  exact Nat.lt_irrefl _ (hlt ha)

/-! ### Checking a grammar

A list of numbers that contains whatever the productions make nullable bounds the nullable symbols from
above, and a ranking that falls along the front of every production then rules out left recursion. Both
can be checked by running through the rules. -/

/-- Whether the symbol can match the empty text if exactly these non-terminals can. -/
def nullableIn (nullable : List Nat) : Symbol → Bool
  | .terminal .epsilon => true
  | .terminal _ => false
  | .nonTerminal id => nullable.contains id

/-- The non-terminals of a production up to the first symbol that takes a character. -/
def frontIds (nullable : List Nat) : List Symbol → List Nat
  | [] => []
  | .terminal terminal :: symbols =>
    if nullableIn nullable (.terminal terminal) then frontIds nullable symbols else []
  | .nonTerminal id :: symbols =>
    id :: if nullable.contains id then frontIds nullable symbols else []

/-- Whether the list holds all nullable non-terminals and the ranking falls along every front. -/
def isRankedBy (g : Grammar) (nullable : List Nat) (rank : List Nat) : Bool :=
  (List.range g.size).all fun a => (g.productionsOf a).all fun production =>
    (!production.all (nullableIn nullable) || nullable.contains a) &&
    (frontIds nullable production).all fun b => rank.getD b 0 < rank.getD a 0

section Ranked

variable {g : Grammar} {nullable rank : List Nat} (h : g.isRankedBy nullable rank = true)
include h

theorem isRankedBy_production {a : Nat} {production : List Symbol}
    (hmem : production ∈ g.productionsOf a) :
    (production.all (nullableIn nullable) = true → a ∈ nullable) ∧
    ∀ b ∈ frontIds nullable production, rank.getD b 0 < rank.getD a 0 := by
  have ha := List.mem_range.2 (lt_size_of_mem_productionsOf hmem)
  have := List.all_eq_true.1 (List.all_eq_true.1 h a ha) production hmem
  simp only [Bool.and_eq_true, Bool.or_eq_true, Bool.not_eq_true', List.all_eq_true,
    decide_eq_true_eq, List.contains_iff_mem] at this
  refine ⟨fun hall => this.1.resolve_left ?_, this.2⟩
  rw [hall]
  exact Bool.true_eq_false.mp

theorem nullableIn_of_nullable {s : Symbol} (hs : g.Nullable s) : nullableIn nullable s = true := by
  induction hs with
  | epsilon => rfl
  | nonTerminal mem _ ih =>
    exact List.contains_iff_mem.2 ((isRankedBy_production h mem).1 (List.all_eq_true.2 ih))

theorem mem_frontIds {before after : List Symbol} {b : Nat}
    (hbefore : ∀ s ∈ before, g.Nullable s) :
    b ∈ frontIds nullable (before ++ .nonTerminal b :: after) := by
  induction before with
  | nil => exact List.mem_cons_self
  | cons s before ih =>
    have hs := nullableIn_of_nullable h (hbefore s List.mem_cons_self)
    have hrest := ih fun s' hs' => hbefore s' (List.mem_cons_of_mem _ hs')
    cases s with
    | terminal terminal =>
      rw [List.cons_append, frontIds, if_pos hs]
      exact hrest
    | nonTerminal id =>
      rw [nullableIn] at hs
      rw [List.cons_append, frontIds, if_pos hs]
      exact List.mem_cons_of_mem _ hrest

theorem not_leftRecursive_of_isRankedBy : ¬g.LeftRecursive := by
  apply not_leftRecursive_of_rank fun a => rank.getD a 0
  rintro a b ⟨before, after, hmem, hbefore⟩
  exact (isRankedBy_production h hmem).2 b (mem_frontIds h hbefore)

end Ranked

end Grammar

end PatternText
