import PatternText.Proofs.Guarded.Session

/-! Patterns for a given text. With a backslash before each character that means something in patterns a
text becomes a pattern that yields the text itself. The pattern is a row of atoms, one for each character;
its program is a row of literals without groups, and evaluating literals takes no decision, so every
generation gives the text and leaves the generator as it was. -/

namespace PatternText

/-- The characters with a backslash before each one that a pattern must escape. -/
def escapeChars (cs : List Char) : List Char :=
  cs.flatMap fun c => if c ∈ metaChars then ['\\', c] else [c]

/-- The pattern for exactly this text. -/
def escape (text : String) : String := String.ofList (escapeChars text.toList)

/-- The atom that stands for a character. -/
def Atom.ofChar (c : Char) : Atom := if h : c ∈ metaChars then .escaped c h else .plain c h

/-- The row of atoms that stands for characters. -/
def Term.ofChars : List Char → Term
  | [] => .nil
  | c :: cs => .cons (.atom (.ofChar c)) [] (ofChars cs)

/-- The step that yields one character. -/
def Step.ofChar (c : Char) : Step := .literal (String.ofList [c])

/-! ### The syntax of an escaped text -/

theorem Atom.text_ofChar (c : Char) :
    (ofChar c).text = if c ∈ metaChars then ['\\', c] else [c] := by
  by_cases h : c ∈ metaChars
  · rw [ofChar, dif_pos h, if_pos h]
    rfl
  · rw [ofChar, dif_neg h, if_neg h]
    rfl

theorem Term.text_ofChars (cs : List Char) : (ofChars cs).text = escapeChars cs := by
  induction cs with
  | nil => rfl
  | cons c cs ih =>
    calc
      (ofChars (c :: cs)).text = (Atom.ofChar c).text ++ (ofChars cs).text := rfl
      _ = escapeChars (c :: cs) := by rw [Atom.text_ofChar, ih]; rfl

/-! ### The program of an escaped text -/

section Steps

open ParseTree PatternText.Part

variable {config : Config} {groups : Nat} {made : List Step} {ts : List ParseTree}

/-- The atom of a character makes a literal, escaped or not. -/
theorem addForest_ofChar (c : Char) :
    addForest config groups made ((Base.atom (.ofChar c)).tree :: ts) =
      addForest config groups (.ofChar c :: made) ts := by
  rw [Base.tree, addForest_passedOver (by decide)]
  by_cases h : c ∈ metaChars
  · have htext : (escMetaChar.node [.leaf (some '\\'), metaChar.node [.leaf (some c)]]).textOf
        "META_CHAR" = String.ofList [c] :=
      textOf_behind_backslash (q := metaChar) (by decide) c
    rw [Atom.ofChar, dif_pos h, Atom.inner, List.singleton_append, addForest_passedOver (by decide),
      List.singleton_append, addForest_construct (construct?_node escMetaChar _),
      addConstruct_plain (c := .escaped) (by decide) (by decide), Step.addPlain, htext]
    rfl
  · have htext : (nonMetaChar.node [.leaf (some c)]).text = String.ofList [c] := by
      rw [text_eq]
      rfl
    rw [Atom.ofChar, dif_neg h, Atom.inner, List.singleton_append, addForest_passedOver (by decide),
      List.singleton_append, addForest_construct (construct?_node nonMetaChar _),
      addConstruct_plain (c := .literal) (by decide) (by decide), Step.addPlain, htext]
    rfl

/-- A row of characters makes one literal for each of them and opens no group. -/
theorem addForest_ofChars (cs : List Char) (made : List Step) :
    addForest config groups made (Term.ofChars cs).factors =
      .ok ((cs.map Step.ofChar).reverse ++ made, groups) := by
  induction cs generalizing made with
  | nil => exact addForest.eq_1 _ _ _
  | cons c cs ih =>
    rw [Term.ofChars, Term.factors, addForest_factorTree, List.map_nil, List.nil_append,
      addForest_ofChar, ih, List.map_cons, List.reverse_cons, List.append_assoc,
      List.singleton_append]

end Steps

/-- Literals do not nest. -/
theorem stepsDepth_ofChars (cs : List Char) : stepsDepth 0 (cs.map Step.ofChar) = 0 := by
  induction cs with
  | nil => rfl
  | cons c cs ih => exact ih

/-- The program that yields the characters one after the other. -/
def Program.ofChars (cs : List Char) : Program := ⟨cs.map Step.ofChar, 0⟩

theorem Program.ofText_escape (config : Config) (text : String) :
    ofText config (escape text) = .ok (ofChars text.toList) := by
  have hforest : ParseTree.addForest config 0 [] [(Regex.term (.ofChars text.toList)).tree] =
      .ok ((text.toList.map Step.ofChar).reverse, 0) := by
    rw [addForest_term, addForest_ofChars, List.append_nil]
  have hprogram := ofText_of_forest hforest
  rw [Regex.text, Term.text_ofChars, List.reverse_reverse] at hprogram
  refine hprogram.trans (limited_of_le ?_)
  rw [depth, stepsDepth_ofChars]
  exact Nat.zero_le nestingLimit

/-! ### Generation -/

variable {σ : Type}

/-- Literals yield their characters, whatever the range and the loops around, and decide nothing. -/
theorem evalSteps_ofChars [Chooser σ] (s : Setting) (counters : List UInt64) (acc : String)
    (cs : List Char) (p : Progress σ) :
    evalSteps s counters acc (cs.map Step.ofChar) p = (.ok (acc ++ String.ofList cs), p) := by
  induction cs generalizing acc with
  | nil =>
    rw [List.map_nil, evalSteps, String.ofList_nil, String.append_empty]
  | cons c cs ih =>
    rw [List.map_cons, Step.ofChar, evalSteps, evalStep]
    calc
      evalSteps s counters (acc ++ String.ofList [c]) (cs.map Step.ofChar) p
        = (.ok (acc ++ String.ofList [c] ++ String.ofList cs), p) := ih _
      _ = (.ok (acc ++ String.ofList (c :: cs)), p) := by
          rw [String.append_assoc, ← String.ofList_append, List.singleton_append]

namespace Generator

theorem generate_ofChars [Chooser σ] {g : Generator σ} {cs : List Char}
    (h : g.program = .ofChars cs) : g.generate = (.ok (String.ofList cs), g) := by
  have hsteps : g.program.steps = cs.map Step.ofChar := congrArg Program.steps h
  rw [generate, hsteps, evalSteps_ofChars, String.empty_append]
  rfl

/-- No action replaces the program. -/
theorem program_perform [Chooser σ] [Seeded σ] (g : Generator σ) (action : Action) :
    (g.perform action).2.program = g.program := by
  cases action <;> rfl

theorem program_session [Chooser σ] [Seeded σ] (g : Generator σ) (actions : List Action) :
    (g.session actions).2.program = g.program := by
  induction actions generalizing g with
  | nil => rfl
  | cons action actions ih => exact (ih _).trans (g.program_perform action)

/-- An escaped text of no more bytes than a pattern may have is a pattern for that text. Its program has
no groups, and whatever a generator of it has done before, the next generation yields the text and
leaves the random source and everything else as it is. -/
theorem generate_escape (config : Config) (text : String)
    (hsize : (escape text).utf8ByteSize ≤ 65536) :
    ∃ program, Program.ofPattern config (escape text) = .ok program ∧ program.groupCount = 0 ∧
      ∀ (σ : Type) [Chooser σ] [Seeded σ] (seed : UInt64) (actions : List Action),
        let g : Generator σ := ((ofProgram config program seed).session actions).2
        g.generate = (.ok text, g) := by
  refine ⟨.ofChars text.toList, ?_, rfl, fun σ _ _ seed actions => ?_⟩
  · have hlimit : ¬patternLimit < (escape text).utf8ByteSize := Nat.not_lt.2 hsize
    rw [Program.ofPattern_eq, if_neg hlimit]
    exact Program.ofText_escape config text
  · have hprogram := program_session (ofProgram config (.ofChars text.toList) seed : Generator σ) actions
    have hgenerate := generate_ofChars hprogram
    rw [String.ofList_toList] at hgenerate
    exact hgenerate

/-- A group of digits with a star, a line break and a backslash after it. -/
theorem starredGroup_escape :
    escape "(7)*\n\\é" = "\\(7\\)\\*\n\\\\é" ∧
    (escape "(7)*\n\\é").utf8ByteSize ≤ 65536 ∧
    ∃ program, Program.ofPattern (.ofSettings {}) "\\(7\\)\\*\n\\\\é" = .ok program ∧
      program.groupCount = 0 ∧
      ∀ (seed : UInt64) (actions : List Action),
        let g : Generator WordSource := ((ofProgram (.ofSettings {}) program seed).session actions).2
        g.generate = (.ok "(7)*\n\\é", g) := by
  have htext : escape "(7)*\n\\é" = "\\(7\\)\\*\n\\\\é" := by decide +kernel
  have hsize : (escape "(7)*\n\\é").utf8ByteSize ≤ 65536 := by
    rw [htext]
    decide +kernel
  obtain ⟨program, hprogram, hgroups, hgenerate⟩ := generate_escape (.ofSettings {}) "(7)*\n\\é" hsize
  rw [htext] at hprogram
  exact ⟨htext, hsize, program, hprogram, hgroups, hgenerate WordSource⟩

end Generator

end PatternText
