import Mathlib.Data.List.Perm.Basic
import PatternText.Proofs.Program.Compiled
import PatternText.Proofs.Program.ListChars

/-! Character classes. Every set that a compiled program draws from lies within the base alphabet: those
with a name are clipped to it when the settings are read, lists when they are compiled. A class and its
negation are complements of each other in the base alphabet, for lists because a caret in front changes
nothing about how the items behind it are read. -/

namespace PatternText

open ParseTree PatternText.Part

/-! ### Complements -/

/-- The sets share no member, have the members of the alphabet between them and so its size, and the
second one keeps its order. -/
structure Complementary (base a b : CharSet) : Prop where
  disjoint : ∀ c ∈ a.chars.toList, c ∉ b.chars.toList
  union : ∀ c, c ∈ base.chars.toList ↔ c ∈ a.chars.toList ∨ c ∈ b.chars.toList
  size : a.size + b.size = base.size
  ordered : b.chars.toList.Sublist base.chars.toList

namespace CharSet

variable {base a b : CharSet} {c : Char}

theorem mem_inter : c ∈ (a.inter b).chars.toList ↔ c ∈ a.chars.toList ∧ c ∈ b.chars.toList := by
  rw [toList_inter, List.mem_filter, contains_iff]

theorem mem_diff : c ∈ (a.diff b).chars.toList ↔ c ∈ a.chars.toList ∧ c ∉ b.chars.toList := by
  rw [toList_diff, List.mem_filter, Bool.not_eq_true', ← Bool.not_eq_true, contains_iff]

/-- What is left of an alphabet without some of its members is complementary to them. -/
theorem complementary_diff (h : ∀ c ∈ a.chars.toList, c ∈ base.chars.toList) :
    Complementary base a (base.diff a) where
  disjoint c hc hdiff := (mem_diff.1 hdiff).2 hc
  union c := by
    rw [mem_diff]
    constructor
    · intro hc
      by_cases ha : c ∈ a.chars.toList
      · exact .inl ha
      · exact .inr ⟨hc, ha⟩
    · rintro (ha | ⟨hc, -⟩)
      · exact h c ha
      · exact hc
  size := by
    have hperm : a.chars.toList.Perm (base.chars.toList.filter a.contains) := by
      rw [List.perm_ext_iff_of_nodup a.nodup (base.nodup.sublist List.filter_sublist)]
      intro c
      rw [List.mem_filter, contains_iff]
      exact ⟨fun hc => ⟨h c hc, hc⟩, And.right⟩
    rw [size, size, size, ← Array.length_toList, ← Array.length_toList, ← Array.length_toList,
      hperm.length_eq, toList_diff, ← List.length_eq_length_filter_add]
  ordered := by
    rw [toList_diff]
    exact List.filter_sublist

end CharSet

/-! ### Sets within the base alphabet -/

/-- Every alphabet with a name is a part of the base. -/
def Config.Clipped (config : Config) : Prop :=
  ∀ a, ∀ c ∈ (config.alphabet a).chars.toList, c ∈ config.base.chars.toList

theorem Config.clipped_ofSettings (settings : Settings) : (ofSettings settings).Clipped := by
  intro a c hc
  cases a with
  | base => exact hc
  | whitespace | digit | word => exact (CharSet.mem_inter.1 hc).2
  | nonWhitespace | nonDigit | nonWord => exact (CharSet.mem_diff.1 hc).1

/-- A construct that makes a draw makes it from a part of the base alphabet. -/
theorem mem_base_of_addPlain {config : Config} (hconfig : config.Clipped) {t : ParseTree}
    {c : Construct} {set : CharSet} (h : Step.addPlain config [] t c = .ok [.oneOf set]) :
    ∀ d ∈ set.chars.toList, d ∈ config.base.chars.toList := by
  have hcounted (bounds : Bounds) (construct : String) :
      Step.repeatCounted config [] bounds construct ≠ .ok [.oneOf set] := by
    rw [Step.repeatCounted]
    cases bounds.checkConstant config.upperBound construct <;>
    · intro hmade
      cases hmade
  cases c with
  | anyOf alphabet =>
    cases h
    exact hconfig alphabet
  | inclusiveList =>
    cases h
    exact fun d hd => (CharSet.mem_inter.1 hd).2
  | exclusiveList =>
    cases h
    exact fun d hd => (CharSet.mem_diff.1 hd).1
  | backref =>
    rw [Step.addPlain] at h
    split at h <;> cases h
  | numeric =>
    rw [Step.addPlain_numeric] at h
    cases hformat : t.numberFormat with
    | error e =>
      rw [hformat] at h
      cases h
    | ok format =>
      rw [hformat] at h
      cases h
  | exactly | atLeast | between =>
    rw [Step.addPlain] at h
    exact absurd h (hcounted _ _)
  | literal | escaped | source | group | alternatives | zeroOrMore | zeroOrOne | oneOrMore => cases h

/-- The step draws from a part of the alphabet, if it draws at all. -/
def Step.DrawsWithin (base : CharSet) (step : Step) : Prop :=
  ∀ set, step = .oneOf set → ∀ c ∈ set.chars.toList, c ∈ base.chars.toList

/-- Every draw anywhere in a compiled program is from a part of the base alphabet. -/
theorem Stands.mem_base {config : Config} (hconfig : config.Clipped) {pattern : String}
    {program : Program} (hprogram : Program.ofPattern config pattern = .ok program) {around : Around}
    {set : CharSet} (h : Stands program.steps around (.oneOf set)) :
    ∀ c ∈ set.chars.toList, c ∈ config.base.chars.toList := by
  have hplain : Step.KeptByPlain config (Step.Throughout (Step.DrawsWithin config.base)) :=
    Step.keptByPlain_throughout fun hmakes set hset => mem_base_of_addPlain hconfig (hset ▸ hmakes)
  have hall := Program.forall_of_ofPattern (Step.hereditary_throughout _) hplain hprogram
  cases h.inherits (Step.hereditary_throughout _) hall with
  | simple hsimple hset => exact hset set rfl

/-! ### Classes and their negations -/

/-- The text is a list as a whole. -/
def IsCharList (text : String) : Prop :=
  ∃ p ∈ [Part.inclusiveList, Part.exclusiveList], ∃ tree, p.reads text.toList = some (tree, [])

theorem exists_charList_of_isCharList {text : String} (h : IsCharList text) :
    ∃ l : CharList, text.toList = l.text := by
  obtain ⟨p, hp, tree, hread⟩ := h
  have htakes : p.takes (Grammar.Takes patternGrammar.longest) text.toList :=
    ⟨tree, [], by rw [List.append_nil]; exact hread⟩
  apply exists_list_of_longest
  rcases List.mem_pair.1 hp with rfl | rfl
  · exact .inl htakes
  · exact .inr htakes

/-- A list whose body has no caret at its front is a plain one, and its body in front of which a caret
is put is negated. -/
theorem exists_charLists {body : String} (hcaret : body.toList.head? ≠ some '^')
    (h : IsCharList ("[" ++ body ++ "]")) : ∃ l l' : CharList,
      "[" ++ body ++ "]" = String.ofList l.text ∧ "[^" ++ body ++ "]" = String.ofList l'.text ∧
      l.negated = false ∧ l'.negated = true ∧ l'.chars = l.chars := by
  obtain ⟨l, hl⟩ := exists_charList_of_isCharList h
  have hbody : body.toList = l.body := by
    have htext := l.text_append []
    rw [List.append_nil, ← hl, String.toList_append, String.toList_append] at htext
    exact List.append_cancel_right (List.cons.inj htext).2
  have hplain : l.negated = false := by
    rw [← Bool.not_eq_true, l.negated_iff, ← hbody]
    exact fun hnegated => hcaret hnegated.1
  refine ⟨l, ⟨true, l.chars, l.nonempty, l.clean, nofun⟩, ?_, ?_, hplain, rfl, rfl⟩
  · rw [← hl, String.ofList_toList]
  · rw [CharList.body, hplain] at hbody
    rw [← String.toList_inj, String.toList_append, String.toList_append, hbody]
    simp only [String.toList_ofList]
    rfl

section Negations

variable {config : Config}

theorem Program.ofText_named {p : Part} {letter : Char} (mem : (p, letter) ∈ escapeLetters)
    {alphabet : Alphabet} (hmeaning : p.meaning? = some (.anyOf alphabet)) :
    ofText config (String.ofList ['\\', letter]) =
      .ok ⟨[.oneOf (config.alphabet alphabet)], 0⟩ := by
  refine ofText_atom (.named p letter mem) rfl ?_
  rw [Atom.inner, addForest_passedOver (by decide), List.append_nil, addForest_plain hmeaning rfl]
  rfl

theorem complementary_lists {body : String} (hcaret : body.toList.head? ≠ some '^')
    (h : IsCharList ("[" ++ body ++ "]")) : ∃ a b,
      Program.ofText config ("[" ++ body ++ "]") = .ok ⟨[.oneOf a], 0⟩ ∧
      Program.ofText config ("[^" ++ body ++ "]") = .ok ⟨[.oneOf b], 0⟩ ∧
      Complementary config.base a b := by
  obtain ⟨l, l', hl, hl', hplain, hnegated, hchars⟩ := exists_charLists hcaret h
  have hset : l.set config = (CharSet.ofChars l.listed).inter config.base := by
    rw [CharList.set, hplain]
    rfl
  have hset' : l'.set config = config.base.diff (l.set config) := by
    rw [hset, CharList.set, CharList.listed, hchars, if_pos hnegated, ← CharList.listed]
  refine ⟨l.set config, l'.set config, ?_, ?_, ?_⟩
  · rw [hl, l.ofText_list config]
  · rw [hl', l'.ofText_list config]
  · rw [hset']
    refine CharSet.complementary_diff fun c hc => ?_
    rw [hset] at hc
    exact (CharSet.mem_inter.1 hc).2

end Negations

/-- Each letter of an alphabet behind a backslash, the letter of its negation, and the two alphabets. -/
def negatedLetters : List ((Char × Char) × Alphabet × Alphabet) :=
  [(('s', 'S'), .whitespace, .nonWhitespace), (('d', 'D'), .digit, .nonDigit),
    (('w', 'W'), .word, .nonWord)]

/-- Classes lie within the base alphabet and their negations are their complements in it. -/
theorem classes_partition_base (settings : Settings) :
    let config := Config.ofSettings settings
    (∀ pattern program, Program.ofPattern config pattern = .ok program →
      ∀ around set, Stands program.steps around (.oneOf set) →
        set.chars.toList.Nodup ∧ ∀ c ∈ set.chars.toList, c ∈ config.base.chars.toList) ∧
    (∀ x ∈ negatedLetters,
      Program.ofText config (String.ofList ['\\', x.1.1]) =
        .ok ⟨[.oneOf (config.alphabet x.2.1)], 0⟩ ∧
      Program.ofText config (String.ofList ['\\', x.1.2]) =
        .ok ⟨[.oneOf (config.alphabet x.2.2)], 0⟩ ∧
      Complementary config.base (config.alphabet x.2.1) (config.alphabet x.2.2)) ∧
    ∀ body : String, body.toList.head? ≠ some '^' → IsCharList ("[" ++ body ++ "]") → ∃ a b,
      Program.ofText config ("[" ++ body ++ "]") = .ok ⟨[.oneOf a], 0⟩ ∧
      Program.ofText config ("[^" ++ body ++ "]") = .ok ⟨[.oneOf b], 0⟩ ∧
      Complementary config.base a b := by
  intro config
  have hclipped : config.Clipped := Config.clipped_ofSettings settings
  refine ⟨fun pattern program hprogram around set h => ?_, fun x hx => ?_, fun body hcaret h => ?_⟩
  · exact ⟨set.nodup, h.mem_base hclipped hprogram⟩
  · simp only [negatedLetters, List.mem_cons, List.not_mem_nil, or_false] at hx
    rcases hx with rfl | rfl | rfl
    · exact ⟨Program.ofText_named (p := .whitespace) (by decide) rfl,
        Program.ofText_named (p := .nonWhitespace) (by decide) rfl,
        CharSet.complementary_diff (hclipped .whitespace)⟩
    · exact ⟨Program.ofText_named (p := .digitAlias) (by decide) rfl,
        Program.ofText_named (p := .nonDigitAlias) (by decide) rfl,
        CharSet.complementary_diff (hclipped .digit)⟩
    · exact ⟨Program.ofText_named (p := .wordChar) (by decide) rfl,
        Program.ofText_named (p := .nonWordChar) (by decide) rfl,
        CharSet.complementary_diff (hclipped .word)⟩
  · exact complementary_lists hcaret h

/-- The list of three letters in a row. -/
def middleLetters : CharList where
  negated := false
  chars := [.plain 'c' (by decide), .plain '-' (by decide), .plain 'e' (by decide)]
  nonempty := List.cons_ne_nil _ _
  clean := ⟨nofun, nofun, nofun, .inr rfl⟩
  caretAlone _ _ h := absurd (ListChar.plain.inj (List.cons.inj h).1) (by decide)

theorem middleLetters_partition :
    let config := Config.ofSettings { base := ["a-g"] }
    let set := middleLetters.set config
    Program.ofPattern config "[c-e]" = .ok ⟨[.oneOf set], 0⟩ ∧ Stands [.oneOf set] {} (.oneOf set) ∧
      (set.chars.toList.Nodup ∧ ∀ c ∈ set.chars.toList, c ∈ config.base.chars.toList) ∧
      "c-e".toList.head? ≠ some '^' ∧ IsCharList ("[" ++ "c-e" ++ "]") ∧ ∃ a b,
        Program.ofText config ("[" ++ "c-e" ++ "]") = .ok ⟨[.oneOf a], 0⟩ ∧
        Program.ofText config ("[^" ++ "c-e" ++ "]") = .ok ⟨[.oneOf b], 0⟩ ∧
        Complementary config.base a b := by
  intro config set
  have hprogram : Program.ofPattern config "[c-e]" = .ok ⟨[.oneOf set], 0⟩ := by
    rw [Program.ofPattern_eq, if_neg (by decide +kernel)]
    exact middleLetters.ofText_list config
  have hstands : Stands [.oneOf set] {} (.oneOf set) := .outermost List.mem_cons_self
  have htext : ("[" ++ "c-e" ++ "]").toList = middleLetters.text := by decide +kernel
  have hread : Part.inclusiveList.reads middleLetters.text = some (middleLetters.tree, []) :=
    reads_inclusiveList middleLetters.nonempty middleLetters.clean
  have hlist : IsCharList ("[" ++ "c-e" ++ "]") :=
    ⟨.inclusiveList, by decide, middleLetters.tree, by rw [htext, hread]⟩
  have hcaret : "c-e".toList.head? ≠ some '^' := by decide
  obtain ⟨hwithin, -, hlists⟩ := classes_partition_base { base := ["a-g"] }
  exact ⟨hprogram, hstands, hwithin _ _ hprogram _ _ hstands, hcaret, hlist, hlists _ hcaret hlist⟩

end PatternText
