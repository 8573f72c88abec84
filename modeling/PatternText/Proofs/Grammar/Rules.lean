import Mathlib.Algebra.BigOperators.Group.List.Lemmas
import Mathlib.Data.List.Sort
import PatternText.Proofs.Grammar.Greedy
import PatternText.Proofs.Grammar.Nesting
import Std.Data.HashMap

/-! Grammars and the rules that they are built from. A grammar represents rules if it has their names,
numbered in the order in which they are first used, and for each name the productions of its rules in
their order, every token read as the non-terminal it names, or else as a set of characters. Rules have
one such grammar. It can be built in two passes over a table of names: the first pass enters the names,
the second one adds the productions, so that a token may name a non-terminal of a later rule. -/

namespace PatternText

/-! ### Words -/

/-- The words of a text are the runs of its characters between blanks. -/
inductive Words : List Char → List (List Char) → Prop where
  | nil : Words [] []
  | blank {c : Char} {rest : List Char} {words : List (List Char)} (hc : isBlank c = true)
      (h : Words rest words) : Words (c :: rest) words
  | word {word rest : List Char} {words : List (List Char)} (hne : word ≠ [])
      (hword : ∀ c ∈ word, isBlank c = false) (hend : ∀ c ∈ rest.head?, isBlank c = true)
      (h : Words rest words) : Words (word ++ rest) (word :: words)

namespace Words

/-- Up to the next blank all characters belong to the word that has begun. -/
theorem go_append (current : List Char) {word rest : List Char}
    (hword : ∀ c ∈ word, isBlank c = false) (hend : ∀ c ∈ rest.head?, isBlank c = true) :
    splitBlank.go current (word ++ rest) =
      splitBlank.close (word.reverse ++ current) (splitBlank rest) := by
  induction word generalizing current with
  | nil =>
    cases rest with
    | nil => rfl
    | cons c rest =>
      have hc : isBlank c = true := hend c rfl
      simp [splitBlank, splitBlank.go, splitBlank.close, hc]
  | cons c word ih =>
    obtain ⟨hc, hword⟩ := List.forall_mem_cons.1 hword
    have hnext := ih (c :: current) hword
    simpa [splitBlank.go, hc] using hnext

theorem of_go {current : List Char} (hcurrent : ∀ c ∈ current, isBlank c = false) (cs : List Char) :
    Words (current.reverse ++ cs) (splitBlank.go current cs) := by
  -- the word that has begun ends here
  have hclose {current rest : List Char} {words : List (List Char)}
      (hcurrent : ∀ c ∈ current, isBlank c = false) (hend : ∀ c ∈ rest.head?, isBlank c = true)
      (h : Words rest words) : Words (current.reverse ++ rest) (splitBlank.close current words) := by
    rw [splitBlank.close]
    split
    next hnil =>
      rw [List.isEmpty_iff.1 hnil]
      exact h
    next hne =>
      refine .word ?_ (fun c hc => hcurrent c (List.mem_reverse.1 hc)) hend h
      rwa [Ne, List.reverse_eq_nil_iff, ← List.isEmpty_iff]
  induction cs generalizing current with
  | nil => exact hclose hcurrent (by simp) .nil
  | cons c cs ih =>
    rw [splitBlank.go]
    split
    next hc =>
      have hrest : Words cs (splitBlank.go [] cs) := ih (List.forall_mem_nil _)
      exact hclose hcurrent (by simp [hc]) (.blank hc hrest)
    next hc =>
      have hnext := ih (List.forall_mem_cons.2 ⟨Bool.eq_false_iff.2 hc, hcurrent⟩)
      simpa using hnext

end Words

theorem words_iff {cs : List Char} {words : List (List Char)} :
    Words cs words ↔ words = splitBlank cs := by
  constructor
  · intro h
    induction h with
    | nil => rfl
    | blank hc _ ih =>
      rw [ih]
      simp [splitBlank, splitBlank.go, splitBlank.close, hc]
    | @word word rest words hne hword hend _ ih =>
      have hsplit := Words.go_append [] hword hend
      rw [List.append_nil, splitBlank.close, if_neg (by simpa using hne), List.reverse_reverse,
        ← ih] at hsplit
      exact hsplit.symm
  · rintro rfl
    exact Words.of_go (List.forall_mem_nil _) cs

namespace Grammar

/-! ### Symbols -/

/-- The names of the non-terminals by number. -/
def names (g : Grammar) : List String := g.nonTerminals.toList.map NonTerminal.name

/-- What a token stands for: the non-terminal that has its name, or else a set of characters, which a
tilde before at least one of them complements. -/
inductive Denotes (g : Grammar) : List Char → Symbol → Prop where
  | reference {token : List Char} {id : Nat} (h : g.names[id]? = some (String.ofList token)) :
      Denotes g token (.nonTerminal id)
  | complement {c : Char} {chars : List Char} (h : String.ofList ('~' :: c :: chars) ∉ g.names) :
      Denotes g ('~' :: c :: chars) (.terminal (.noneOf (c :: chars)))
  | chars {token : List Char} (h : String.ofList token ∉ g.names)
      (htilde : ∀ c chars, token ≠ '~' :: c :: chars) : Denotes g token (.terminal (.oneOf token))

/-- The symbols of a written production: those of its words, or the match of nothing. -/
inductive Produces (g : Grammar) (production : String) : List Symbol → Prop where
  | nothing (h : Words production.toList []) : Produces g production [.terminal .epsilon]
  | row {tokens : List (List Char)} {symbols : List Symbol} (hne : tokens ≠ [])
      (h : Words production.toList tokens) (hall : List.Forall₂ g.Denotes tokens symbols) :
      Produces g production symbols

/-- The grammar has the names and the productions of the rules, in their order, and nothing else. -/
structure Represents (g : Grammar) (rules : List (String × String)) : Prop where
  mem_names : ∀ name, name ∈ g.names ↔ name ∈ rules.map Prod.fst
  /-- Numbers follow the first rules of the names. -/
  ordered : g.names.Pairwise fun a b => (rules.map Prod.fst).idxOf a < (rules.map Prod.fst).idxOf b
  start : g.names[g.start]? = (rules.map Prod.fst).head?
  lookup_eq_some_iff : ∀ name id, g.lookup name = some id ↔ g.names[id]? = some name
  lookup_eq_none_iff : ∀ name, g.lookup name = none ↔ name ∉ rules.map Prod.fst
  /-- Each rule gives one production. -/
  productions : ∀ nt ∈ g.nonTerminals, List.Forall₂ (fun rule symbols => g.Produces rule.2 symbols)
    (rules.filter fun rule => rule.1 == nt.name) nt.productions
  total : (g.nonTerminals.toList.flatMap NonTerminal.productions).length = rules.length
  closed : g.Closed

theorem lookup_eq_idxOf? (g : Grammar) (name : String) : g.lookup name = g.names.idxOf? name := by
  obtain ⟨nonTerminals⟩ := g
  rw [lookup, names, List.idxOf?, List.findIdx?_map, ← List.findIdx?_toArray, Array.toArray_toList]
  rfl

/-- Where no name stands twice, a name is found at its place. -/
theorem idxOf?_eq_some_iff {names : List String} (hnodup : names.Nodup) {name : String} {id : Nat} :
    names.idxOf? name = some id ↔ names[id]? = some name := by
  rw [List.idxOf?, List.findIdx?_eq_some_iff_getElem, List.getElem?_eq_some_iff]
  refine exists_congr fun hid => ?_
  rw [beq_iff_eq, and_iff_left_iff_imp]
  intro hname j hj heq
  rw [beq_iff_eq, ← hname, hnodup.getElem_inj_iff] at heq
  exact hj.ne heq

/-- A new name at the end has the next number, and the others keep theirs. -/
theorem idxOf?_append_singleton {names : List String} {name : String} (hname : name ∉ names)
    (name' : String) : (names ++ [name]).idxOf? name' =
      if name = name' then some names.length else names.idxOf? name' := by
  show (names ++ [name]).findIdx? (· == name') = _
  rw [List.findIdx?_append]
  change (names.idxOf? name').or _ = _
  split
  next heq =>
    rw [← heq, List.idxOf?_eq_none_iff.2 hname]
    simp
  next hne => simp [hne]

variable {g : Grammar}

theorem denotes_iff (hnodup : g.names.Nodup) {token : List Char} {symbol : Symbol} :
    g.Denotes token symbol ↔ symbolOfToken g.names token = symbol := by
  constructor
  · intro h
    cases h with
    | reference h => rw [symbolOfToken, (idxOf?_eq_some_iff hnodup).2 h]
    | complement h =>
      rw [symbolOfToken, List.idxOf?_eq_none_iff.2 h]
      rfl
    | chars h htilde =>
      rw [symbolOfToken, List.idxOf?_eq_none_iff.2 h]
      dsimp only
      rw [Terminal.ofToken]
      exact htilde
  · rintro rfl
    rw [symbolOfToken]
    split
    next id h => exact .reference ((idxOf?_eq_some_iff hnodup).1 h)
    next h =>
      have hname := List.idxOf?_eq_none_iff.1 h
      unfold Terminal.ofToken
      split
      next c chars => exact .complement hname
      next htilde => exact .chars hname htilde

theorem forall₂_denotes_iff (hnodup : g.names.Nodup) {tokens : List (List Char)}
    {symbols : List Symbol} :
    List.Forall₂ g.Denotes tokens symbols ↔ tokens.map (symbolOfToken g.names) = symbols := by
  have hdenotes : g.Denotes = fun token symbol => symbolOfToken g.names token = symbol := by
    ext token symbol
    exact denotes_iff hnodup
  rw [hdenotes, ← List.forall₂_map_left_iff, List.forall₂_eq_eq_eq]

theorem produces_iff (hnodup : g.names.Nodup) {production : String} {symbols : List Symbol} :
    g.Produces production symbols ↔ symbolsOf g.names production = symbols := by
  constructor
  · intro h
    cases h with
    | nothing h => rw [symbolsOf, ← words_iff.1 h]
    | @row tokens symbols hne h hall =>
      rw [symbolsOf, ← words_iff.1 h, ← (forall₂_denotes_iff hnodup).1 hall]
      cases tokens with
      | nil => exact absurd rfl hne
      | cons _ _ => rfl
  · rintro rfl
    rw [symbolsOf]
    split
    next h => exact .nothing (words_iff.2 h.symm)
    next hne => exact .row hne (words_iff.2 rfl) ((forall₂_denotes_iff hnodup).2 rfl)

/-! ### Non-terminals -/

/-- The non-terminal of a name as rules describe it. -/
def described (names : List String) (rules : List (String × String)) (name : String) : NonTerminal where
  name
  productions := (rules.filter (·.1 == name)).map fun rule => symbolsOf names rule.2

/-- The grammar has just these names, and the productions of the rules for them. -/
def Describes (g : Grammar) (names : List String) (rules : List (String × String)) : Prop :=
  g.nonTerminals.toList = names.map (described names rules)

theorem Describes.names_eq {names : List String} {rules : List (String × String)}
    (h : g.Describes names rules) : g.names = names := by
  rw [Grammar.names, h, List.map_map]
  exact List.map_id names

theorem Describes.eq {g' : Grammar} {names : List String} {rules : List (String × String)}
    (h : g.Describes names rules) (h' : g'.Describes names rules) : g = g' := by
  obtain ⟨nonTerminals⟩ := g
  obtain ⟨nonTerminals'⟩ := g'
  rw [mk.injEq, ← Array.toList_inj]
  exact h.trans h'.symm

theorem describes_ofRules (rules : List (String × String)) :
    (ofRules rules).Describes (rules.map Prod.fst).eraseDups rules := rfl

theorem length_flatMap_described {names : List String} {rules : List (String × String)}
    (hnodup : names.Nodup) (hmem : ∀ name, name ∈ names ↔ name ∈ rules.map Prod.fst) :
    ((names.map (described names rules)).flatMap NonTerminal.productions).length = rules.length := by
  have hcount (name : String) :
      (described names rules name).productions.length = (rules.map Prod.fst).count name := by
    rw [described, List.length_map, List.count, List.countP_map, List.countP_eq_length_filter]
    rfl
  have hperm : names.Perm (rules.map Prod.fst).dedup :=
    (List.perm_ext_iff_of_nodup hnodup (List.nodup_dedup _)).2 fun name => by
      rw [hmem, List.mem_dedup]
  calc ((names.map (described names rules)).flatMap NonTerminal.productions).length
      = (names.map fun name => (rules.map Prod.fst).count name).sum := by
        simp only [List.length_flatMap, List.map_map, Function.comp_def, hcount]
    _ = ((rules.map Prod.fst).dedup.map fun name => (rules.map Prod.fst).count name).sum :=
        (hperm.map _).sum_eq
    _ = rules.length := by rw [List.sum_map_count_dedup_eq_length, List.length_map]

theorem represents_ofRules (rules : List (String × String)) : (ofRules rules).Represents rules := by
  have hdescribes := describes_ofRules rules
  have hnames := hdescribes.names_eq
  have hnodup : (ofRules rules).names.Nodup := by
    rw [hnames]
    exact nodup_eraseDups _
  have hmem (name : String) : name ∈ (ofRules rules).names ↔ name ∈ rules.map Prod.fst := by
    rw [hnames, List.mem_eraseDups]
  constructor
  case mem_names => exact hmem
  case ordered =>
    rw [hnames]
    exact pairwise_idxOf_eraseDups _
  case start =>
    rw [hnames, start]
    cases rules with
    | nil => rfl
    | cons rule rules =>
      rw [List.map_cons, List.eraseDups_cons]
      rfl
  case lookup_eq_some_iff =>
    intro name id
    rw [lookup_eq_idxOf?, idxOf?_eq_some_iff hnodup]
  case lookup_eq_none_iff =>
    intro name
    rw [lookup_eq_idxOf?, List.idxOf?_eq_none_iff, hmem]
  case productions =>
    intro nt hnt
    rw [← Array.mem_toList_iff, hdescribes] at hnt
    obtain ⟨name, -, rfl⟩ := List.mem_map.1 hnt
    rw [described, List.forall₂_map_right_iff, List.forall₂_same]
    intro rule _
    rw [produces_iff hnodup, hnames]
  case total =>
    rw [hdescribes]
    exact length_flatMap_described (hnames ▸ hnodup) (hnames ▸ hmem)
  case closed => exact closed_ofRules rules

theorem Represents.describes {rules : List (String × String)} (h : g.Represents rules) :
    g.Describes (rules.map Prod.fst).eraseDups rules := by
  have hnodup : g.names.Nodup :=
    h.ordered.imp fun hlt heq => absurd (heq ▸ hlt) (Nat.lt_irrefl _)
  have hnames : g.names = (rules.map Prod.fst).eraseDups := by
    refine List.Pairwise.eq_of_mem_iff h.ordered (pairwise_idxOf_eraseDups _) fun {name} => ?_
    rw [h.mem_names, List.mem_eraseDups]
  have hnt : ∀ nt ∈ g.nonTerminals.toList, described g.names rules nt.name = nt := by
    intro nt hnt
    have hproductions := h.productions nt (Array.mem_toList_iff.1 hnt)
    simp only [produces_iff hnodup] at hproductions
    rw [← List.forall₂_map_left_iff, List.forall₂_eq_eq_eq] at hproductions
    rw [described, hproductions]
  rw [Describes, ← hnames, names, List.map_map]
  calc g.nonTerminals.toList = g.nonTerminals.toList.map id := (List.map_id _).symm
    _ = g.nonTerminals.toList.map (described g.names rules ∘ NonTerminal.name) :=
      List.map_congr_left fun nt hmem => (hnt nt hmem).symm

/-! ### Two passes -/

/-- A grammar with the numbers of its names in a table of their own. -/
structure Indexed where
  nonTerminals : Array NonTerminal
  byName : Std.HashMap String Nat
  start : Nat

namespace Indexed

def empty : Indexed := ⟨#[], ∅, 0⟩

def grammar (t : Indexed) : Grammar := ⟨t.nonTerminals⟩

/-- A name that is in the table keeps its number, and another one gets the next. -/
def enterName (t : Indexed) (name : String) : Indexed :=
  if t.byName.contains name then t
  else
    { t with
      nonTerminals := t.nonTerminals.push ⟨name, []⟩
      byName := t.byName.insert name t.nonTerminals.size }

/-- The symbol that a token stands for, as the table has it. -/
def symbolOf (t : Indexed) (token : List Char) : Symbol :=
  match t.byName[String.ofList token]? with
  | some id => .nonTerminal id
  | none => .terminal (.ofToken token)

def symbols (t : Indexed) (production : String) : List Symbol :=
  let row := (splitBlank production.toList).map t.symbolOf
  if row.isEmpty then [.terminal .epsilon] else row

/-- The production of a rule comes after those that its non-terminal has. -/
def addProduction (t : Indexed) (rule : String × String) : Indexed :=
  match t.byName[rule.1]? with
  | some id =>
    { t with
      nonTerminals := t.nonTerminals.modify id fun nt =>
        { nt with productions := nt.productions ++ [t.symbols rule.2] } }
  | none => t

end Indexed

/-- All names first, and then all productions. -/
def inTwoPasses (rules : List (String × String)) : Indexed :=
  rules.foldl Indexed.addProduction ((rules.map Prod.fst).foldl Indexed.enterName .empty)

theorem described_concat (names : List String) (rules : List (String × String))
    (rule : String × String) (name : String) :
    described names (rules ++ [rule]) name =
      if rule.1 = name then
        { described names rules name with
          productions := (described names rules name).productions ++ [symbolsOf names rule.2] }
      else described names rules name := by
  split
  next h => simp [described, List.filter_append, h]
  next h => simp [described, List.filter_append, h]

namespace Indexed

/-- The non-terminals are those of the names and rules, and the table has the number of each name. -/
structure Stores (t : Indexed) (names : List String) (rules : List (String × String)) : Prop where
  describes : t.grammar.Describes names rules
  byName : ∀ name, t.byName[name]? = names.idxOf? name
  start : t.start = 0

variable {t : Indexed} {names : List String} {rules : List (String × String)}

theorem stores_empty : empty.Stores [] [] where
  describes := rfl
  byName name := by
    rw [empty, Std.HashMap.getElem?_empty]
    rfl
  start := rfl

theorem Stores.contains_iff (h : t.Stores names rules) {name : String} :
    t.byName.contains name = true ↔ name ∈ names := by
  rw [Std.HashMap.contains_eq_isSome_getElem?, h.byName, List.isSome_idxOf?]

theorem Stores.size (h : t.Stores names rules) : t.nonTerminals.size = names.length := by
  have hlength := congrArg List.length h.describes
  rwa [List.length_map, Array.length_toList] at hlength

theorem Stores.enterName {row : List String} (h : t.Stores row.eraseDups []) (name : String) :
    (t.enterName name).Stores (row ++ [name]).eraseDups [] := by
  rw [eraseDups_append_singleton, Indexed.enterName]
  by_cases hname : name ∈ row
  · rwa [if_pos (h.contains_iff.2 (List.mem_eraseDups.2 hname)), if_pos hname]
  · have hnone : name ∉ row.eraseDups := mt List.mem_eraseDups.1 hname
    rw [if_neg (mt h.contains_iff.1 hnone), if_neg hname]
    refine ⟨?_, fun name' => ?_, h.start⟩
    · show (t.nonTerminals.push ⟨name, []⟩).toList = _
      rw [Array.toList_push, List.map_append]
      exact congrArg (· ++ [⟨name, []⟩]) h.describes
    · show (t.byName.insert name t.nonTerminals.size)[name']? = _
      rw [Std.HashMap.getElem?_insert, h.byName, h.size, idxOf?_append_singleton hnone]
      simp only [beq_iff_eq]

/-- The first pass gives each name its number. -/
theorem stores_enterNames (row : List String) : (row.foldl enterName empty).Stores row.eraseDups [] := by
  induction row using List.reverseRecOn with
  | nil => exact stores_empty
  | append_singleton row name ih =>
    rw [List.foldl_append]
    exact ih.enterName name

theorem Stores.symbols_eq (h : t.Stores names rules) (production : String) :
    t.symbols production = symbolsOf names production := by
  have hsymbol : t.symbolOf = symbolOfToken names := by
    funext token
    have hfound := h.byName (String.ofList token)
    unfold symbolOf symbolOfToken
    generalize names.idxOf? (String.ofList token) = number at hfound ⊢
    cases number with
    | none => rw [hfound]
    | some id => rw [hfound]
  unfold symbols symbolsOf
  cases splitBlank production.toList with
  | nil => rfl
  | cons token tokens => exact congrArg (fun symbol => (token :: tokens).map symbol) hsymbol

theorem Stores.addProduction (hnodup : names.Nodup) (h : t.Stores names rules)
    {rule : String × String} (hrule : rule.1 ∈ names) :
    (t.addProduction rule).Stores names (rules ++ [rule]) := by
  obtain ⟨id, hid⟩ := List.getElem?_of_mem hrule
  have hlookup : t.byName[rule.1]? = some id := by
    rw [h.byName, idxOf?_eq_some_iff hnodup, hid]
  rw [Indexed.addProduction, hlookup]
  refine ⟨?_, h.byName, h.start⟩
  show (t.nonTerminals.modify id _).toList = _
  rw [Array.toList_modify, show t.nonTerminals.toList = _ from h.describes, h.symbols_eq]
  refine List.ext_getElem? fun i => ?_
  rw [List.getElem?_modify, List.getElem?_map, List.getElem?_map]
  cases hi : names[i]? with
  | none => simp
  | some name =>
    have hsame : id = i ↔ rule.1 = name := by
      constructor
      · rintro rfl
        exact Option.some.inj (hid.symm.trans hi)
      · rintro rfl
        rw [← idxOf?_eq_some_iff hnodup] at hid hi
        exact Option.some.inj (hid.symm.trans hi)
    simp [described_concat, hsame]

/-- The second pass finds all names in the table, also those of rules that are still to come. -/
theorem stores_addProductions (hnodup : names.Nodup) (h : t.Stores names [])
    (hrules : ∀ rule ∈ rules, rule.1 ∈ names) :
    (rules.foldl addProduction t).Stores names rules := by
  induction rules using List.reverseRecOn with
  | nil => exact h
  | append_singleton rules rule ih =>
    rw [List.forall_mem_append] at hrules
    rw [List.foldl_append]
    exact (ih hrules.1).addProduction hnodup (hrules.2 rule (List.mem_singleton_self rule))

end Indexed

theorem stores_inTwoPasses (rules : List (String × String)) :
    (inTwoPasses rules).Stores (rules.map Prod.fst).eraseDups rules :=
  Indexed.stores_addProductions (nodup_eraseDups _) (Indexed.stores_enterNames _) fun _ hrule =>
    List.mem_eraseDups.2 (List.mem_map_of_mem hrule)

/-- The grammar of rules has their names, numbered by their first rules, from which they are found again;
it starts with the name of the first rule; and it has the productions of each name in the order of its
rules, with each word read as the non-terminal of that name or else as characters. No other grammar
represents the rules in this way. Two passes over them build it, and with it a table that has the number
of each name and no other name. -/
theorem rules_represented (rules : List (String × String)) :
    (ofRules rules).Represents rules ∧ (∀ g : Grammar, g.Represents rules → g = ofRules rules) ∧
      (inTwoPasses rules).grammar = ofRules rules ∧
      (∀ name, (inTwoPasses rules).byName[name]? = (ofRules rules).lookup name) ∧
      (inTwoPasses rules).start = (ofRules rules).start := by
  have hstores := stores_inTwoPasses rules
  have hdescribes := describes_ofRules rules
  refine ⟨represents_ofRules rules, fun _ h => h.describes.eq hdescribes,
    hstores.describes.eq hdescribes, fun name => ?_, hstores.start⟩
  rw [hstores.byName, lookup_eq_idxOf?, hdescribes.names_eq]

/-- A rule of a name that is already known, and a token that names a later rule. -/
example : (ofRules [("S", "a T"), ("T", "~x ~"), ("S", "")]).nonTerminals.toList =
    [⟨"S", [[.terminal (.oneOf ['a']), .nonTerminal 1], [.terminal .epsilon]]⟩,
      ⟨"T", [[.terminal (.noneOf ['x']), .terminal (.oneOf ['~'])]]⟩] := by
  decide +kernel

end Grammar

end PatternText
