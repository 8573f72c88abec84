import PatternText.Proofs.Grammar.Spelling
import PatternText.Proofs.Text.Quoted
import PatternText.Text.Lines

/-! Printed trees read back. A printed tree has one line for each node, in tree order. What stands on a
line begins behind the spaces that indent it. The quoted lines hold the characters of the text, and the
indentation alone tells the form of the tree: below a node is what follows it as long as it is indented
further. -/

namespace PatternText

/-! ### Lines -/

/-- A row of characters that can stand on a line: it does not break it and does not end in a part of its
end. -/
def FitsLine (cs : List Char) : Prop := '\n' ∉ cs ∧ cs.getLast? ≠ some '\r'

theorem splitLines_go_line {cs : List Char} (h : '\n' ∉ cs) (current rest : List Char) :
    splitLines.go current (cs ++ rest) = splitLines.go (cs.reverse ++ current) rest := by
  induction cs generalizing current with
  | nil => rfl
  | cons c cs ih =>
    obtain ⟨hc, hcs⟩ := not_or.1 (List.mem_cons.not.1 h)
    rw [List.cons_append, splitLines.go, ih hcs, List.reverse_cons, List.append_assoc,
      List.singleton_append]
    exact fun hfeed => hc hfeed.symm

theorem splitLines_lines {lines : List (List Char)} (h : ∀ cs ∈ lines, FitsLine cs) :
    splitLines (String.ofList (lines.flatMap (· ++ ['\n']))) = lines.map String.ofList := by
  rw [splitLines, String.toList_ofList]
  induction lines with
  | nil => rfl
  | cons cs lines ih =>
    obtain ⟨⟨hfeed, hreturn⟩, hlines⟩ := List.forall_mem_cons.1 h
    rw [List.flatMap_cons, List.append_assoc, splitLines_go_line hfeed, List.append_nil,
      List.singleton_append, splitLines.go, ih hlines, List.map_cons]
    · rw [splitLines.close, List.reverse_reverse]
    · intro line hline
      rw [List.getLast?_eq_head?_reverse, hline] at hreturn
      exact hreturn rfl

/-- How far a line is indented. -/
def indentation (line : String) : Nat := (line.toList.takeWhile (· == ' ')).length

/-- What stands on a line. -/
def content (line : String) : List Char := line.toList.dropWhile (· == ' ')

section Indented

variable {cs : List Char} (h : cs.head? ≠ some ' ') (n : Nat)
include h

theorem indentation_indented : indentation (String.ofList (List.replicate n ' ' ++ cs)) = n := by
  rw [indentation, String.toList_ofList, List.takeWhile_append_of_pos (by simp)]
  have hnone : cs.takeWhile (· == ' ') = [] := by
    cases cs with
    | nil => rfl
    | cons c cs => exact List.takeWhile_cons_of_neg fun hc => h (by rw [eq_of_beq hc]; rfl)
  rw [hnone, List.append_nil, List.length_replicate]

theorem content_indented : content (String.ofList (List.replicate n ' ' ++ cs)) = cs := by
  rw [content, String.toList_ofList, List.dropWhile_append_of_pos (by simp)]
  cases cs with
  | nil => rfl
  | cons c cs => exact List.dropWhile_cons_of_neg fun hc => h (by rw [eq_of_beq hc]; rfl)

end Indented

/-- Whether a quotation mark stands first on a line. -/
def isQuoted (content : List Char) : Bool := content.head? == some '"'

namespace ParseTree

/-! ### Nodes in tree order -/

mutual

/-- The nodes of a tree that stands at a depth, each with its own depth before those below it. -/
def preorder (depth : Nat) : ParseTree → List (Nat × ParseTree)
  | leaf c => [(depth, leaf c)]
  | node name children => (depth, node name children) :: preorderAll (depth + 1) children

def preorderAll (depth : Nat) : List ParseTree → List (Nat × ParseTree)
  | [] => []
  | t :: ts => t.preorder depth ++ preorderAll depth ts

end

theorem preorder_eq (depth : Nat) (t : ParseTree) :
    t.preorder depth = (depth, t) :: preorderAll (depth + 1) t.children := by
  cases t with
  | leaf c => rfl
  | node name children => rw [preorder]; rfl

theorem preorderAll_eq_flatMap (depth : Nat) (ts : List ParseTree) :
    preorderAll depth ts = (ts.map (depth, ·)).flatMap fun p => p.2.preorder p.1 := by
  induction ts with
  | nil => rfl
  | cons t ts ih => rw [preorderAll, ih, List.map_cons, List.flatMap_cons]

/-- The character at a leaf. -/
def leafChars : ParseTree → List Char
  | leaf c => c.toList
  | node _ _ => []

mutual

/-- The leaves in tree order spell the text. -/
theorem flatMap_leafChars_preorder (depth : Nat) (t : ParseTree) :
    (t.preorder depth).flatMap (leafChars ∘ Prod.snd) = t.chars := by
  cases t with
  | leaf c => rw [preorder, List.flatMap_singleton]; rfl
  | node name children =>
    rw [preorder, List.flatMap_cons, chars, ← flatMap_leafChars_preorderAll (depth + 1) children]
    rfl

theorem flatMap_leafChars_preorderAll (depth : Nat) (ts : List ParseTree) :
    (preorderAll depth ts).flatMap (leafChars ∘ Prod.snd) = charsAll ts := by
  cases ts with
  | nil => rfl
  | cons t ts =>
    rw [preorderAll, List.flatMap_append, flatMap_leafChars_preorder depth t,
      flatMap_leafChars_preorderAll depth ts, charsAll]

end

/-! ### Printed lines -/

/-- The line of a node at a depth. -/
def printedLine (p : Nat × ParseTree) : List Char :=
  List.replicate (2 * p.1) ' ' ++ p.2.label.toList

theorem toList_printFrom (acc : String) (ps : List (Nat × ParseTree)) :
    (printFrom acc ps).toList = acc.toList ++
      ((ps.flatMap fun p => p.2.preorder p.1).map printedLine).flatMap (· ++ ['\n']) := by
  fun_induction printFrom acc ps with
  | case1 acc => simp
  | case2 acc depth t ps ih =>
    rw [ih, List.flatMap_append, ← preorderAll_eq_flatMap, List.flatMap_cons, preorder_eq]
    simp [printedLine]

/-- A printed tree is its lines in tree order. -/
theorem toText_eq (t : ParseTree) :
    t.toText = String.ofList (((t.preorder 0).map printedLine).flatMap (· ++ ['\n'])) := by
  rw [← String.toList_inj, String.toList_ofList, toText, toList_printFrom, List.flatMap_singleton]
  rfl

/-- Whether a name cannot be taken for a character or for a part of the indentation. -/
def isTitle (name : String) : Bool := name.toList.all fun c => c.isUpper || c == '_'

theorem notMem_of_isTitle {name : String} (h : isTitle name = true) {c : Char}
    (hc : (c.isUpper || c == '_') = false) : c ∉ name.toList := by
  intro hmem
  have hletter : (c.isUpper || c == '_') = true := List.all_eq_true.1 h c hmem
  rw [hc] at hletter
  cases hletter

/-- The own name of a node is a title. -/
def Titled (t : ParseTree) : Prop := ∀ name ∈ t.name?, isTitle name = true

theorem fitsLine_label {t : ParseTree} (h : t.Titled) : FitsLine t.label.toList := by
  cases t with
  | leaf c =>
    cases c with
    | none => exact ⟨by decide, by decide⟩
    | some c =>
      rw [FitsLine, label, Quoted.getLast?_ofString]
      exact ⟨Quoted.lineFeed_notMem_ofString _, by decide⟩
  | node name children =>
    have htitle : isTitle name = true := h name rfl
    exact ⟨notMem_of_isTitle htitle (by decide), fun hlast =>
      notMem_of_isTitle htitle (by decide) (List.mem_of_getLast? hlast)⟩

theorem fitsLine_printedLine {p : Nat × ParseTree} (h : p.2.Titled) : FitsLine (printedLine p) := by
  obtain ⟨hfeed, hreturn⟩ := fitsLine_label h
  constructor
  · rw [printedLine, List.mem_append, not_or]
    exact ⟨fun hmem => absurd (List.eq_of_mem_replicate hmem) (by decide), hfeed⟩
  · rw [printedLine, List.getLast?_append, ne_eq, Option.or_eq_some_iff]
    rintro (hlabel | ⟨-, hspaces⟩)
    · exact hreturn hlabel
    · exact absurd (List.eq_of_mem_replicate (List.mem_of_getLast? hspaces)) (by decide)

theorem head?_label_ne_space {t : ParseTree} (h : t.Titled) : t.label.toList.head? ≠ some ' ' := by
  cases t with
  | leaf c =>
    cases c with
    | none => decide
    | some c =>
      rw [label, Quoted.head?_ofString]
      decide
  | node name children =>
    have htitle : isTitle name = true := h name rfl
    exact fun hhead => notMem_of_isTitle htitle (by decide) (List.mem_of_head? hhead)

/-- Only on the line of a character a quotation mark stands first. -/
theorem isQuoted_label {t : ParseTree} (h : t.Titled) :
    isQuoted t.label.toList = true ↔ ∃ c, t = leaf (some c) := by
  rw [isQuoted, beq_iff_eq]
  cases t with
  | leaf c =>
    cases c with
    | none => exact ⟨fun hhead => absurd hhead (by decide), nofun⟩
    | some c => exact ⟨fun _ => ⟨c, rfl⟩, fun _ => Quoted.head?_ofString _⟩
  | node name children =>
    have htitle : isTitle name = true := h name rfl
    refine ⟨fun hhead => ?_, nofun⟩
    exact absurd (List.mem_of_head? hhead) (notMem_of_isTitle htitle (by decide))

section Printed

variable {t : ParseTree} (h : ∀ p ∈ t.preorder 0, p.2.Titled)
include h

theorem splitLines_toText :
    splitLines t.toText = (t.preorder 0).map (String.ofList ∘ printedLine) := by
  rw [toText_eq, splitLines_lines, List.map_map]
  intro cs hcs
  obtain ⟨p, hp, rfl⟩ := List.mem_map.1 hcs
  exact fitsLine_printedLine (h p hp)

theorem map_indentation_toText :
    (splitLines t.toText).map indentation = (t.preorder 0).map (2 * ·.1) := by
  rw [splitLines_toText h, List.map_map]
  exact List.map_congr_left fun p hp => indentation_indented (head?_label_ne_space (h p hp)) _

theorem map_content_toText :
    (splitLines t.toText).map content = (t.preorder 0).map (·.2.label.toList) := by
  rw [splitLines_toText h, List.map_map]
  exact List.map_congr_left fun p hp => content_indented (head?_label_ne_space (h p hp)) _

end Printed

end ParseTree

/-! ### The characters of the text -/

/-- What the quoted ones of some lines stand for, one after the other. -/
def unquoteAll? (contents : List (List Char)) : Option (List Char) :=
  ((contents.filter isQuoted).mapM Quoted.unquote?).map List.flatten

theorem unquoteAll?_cons_quoted {cs : List Char} (h : isQuoted cs = true)
    (contents : List (List Char)) :
    unquoteAll? (cs :: contents) =
      (Quoted.unquote? cs).bind fun chars => (unquoteAll? contents).map (chars ++ ·) := by
  rw [unquoteAll?, List.filter_cons_of_pos h, List.mapM_cons, unquoteAll?]
  cases Quoted.unquote? cs with
  | none => rfl
  | some chars => cases (contents.filter isQuoted).mapM Quoted.unquote? <;> rfl

theorem unquoteAll?_cons_other {cs : List Char} (h : ¬isQuoted cs = true)
    (contents : List (List Char)) : unquoteAll? (cs :: contents) = unquoteAll? contents := by
  rw [unquoteAll?, List.filter_cons_of_neg h, unquoteAll?]

/-- The text that the quoted lines of a printed tree stand for. -/
def quotedText? (printed : String) : Option String :=
  (unquoteAll? ((splitLines printed).map content)).map String.ofList

namespace ParseTree

theorem unquoteAll?_labels {ps : List (Nat × ParseTree)} (h : ∀ p ∈ ps, p.2.Titled) :
    unquoteAll? (ps.map (·.2.label.toList)) = some (ps.flatMap (leafChars ∘ Prod.snd)) := by
  induction ps with
  | nil => rfl
  | cons p ps ih =>
    obtain ⟨hp, hps⟩ := List.forall_mem_cons.1 h
    rw [List.map_cons, List.flatMap_cons]
    by_cases hquoted : isQuoted p.2.label.toList = true
    · obtain ⟨c, hc⟩ := (isQuoted_label hp).1 hquoted
      rw [unquoteAll?_cons_quoted hquoted, ih hps, Function.comp_apply, hc, label,
        Quoted.unquote?_ofString, String.toList_singleton]
      rfl
    · rw [unquoteAll?_cons_other hquoted, ih hps]
      cases hlabel : p.2 with
      | leaf c =>
        cases c with
        | none => rw [Function.comp_apply, hlabel]; rfl
        | some c => exact absurd ((isQuoted_label hp).2 ⟨c, hlabel⟩) hquoted
      | node name children => rw [Function.comp_apply, hlabel]; rfl

/-- The quoted lines of a printed tree stand for the text that the tree spells. -/
theorem quotedText?_toText {t : ParseTree} (h : ∀ p ∈ t.preorder 0, p.2.Titled) :
    quotedText? t.toText = some t.text := by
  rw [quotedText?, map_content_toText h, unquoteAll?_labels h, flatMap_leafChars_preorder, text_eq]
  rfl

end ParseTree

/-! ### The form of the tree -/

/-- A tree without what its nodes bear. -/
inductive Shape where
  | mk (children : List Shape)

namespace ParseTree

mutual

/-- The form of a tree. -/
def shape : ParseTree → Shape
  | leaf _ => .mk []
  | node _ children => .mk (shapeAll children)

def shapeAll : List ParseTree → List Shape
  | [] => []
  | t :: ts => t.shape :: shapeAll ts

end

end ParseTree

namespace Shape

/-- One more line in front of the trees that follow: those that are indented further, up to the first
that is not, are below it. -/
def attach (width : Nat) (later : List (Nat × Shape)) : List (Nat × Shape) :=
  (width, .mk ((later.takeWhile (width < ·.1)).map Prod.snd)) :: later.dropWhile (width < ·.1)

theorem attach_append {width : Nat} {near later : List (Nat × Shape)} (hnear : ∀ p ∈ near, width < p.1)
    (hlater : ∀ p ∈ later.head?, p.1 ≤ width) :
    attach width (near ++ later) = (width, .mk (near.map Prod.snd)) :: later := by
  have hall : ∀ p ∈ near, decide (width < p.1) = true := fun p hp => decide_eq_true (hnear p hp)
  have htake : later.takeWhile (width < ·.1) = [] := by
    cases later with
    | nil => rfl
    | cons p later => exact List.takeWhile_cons_of_neg (by simpa using hlater p rfl)
  have hdrop : later.dropWhile (width < ·.1) = later := by
    cases later with
    | nil => rfl
    | cons p later => exact List.dropWhile_cons_of_neg (by simpa using hlater p rfl)
  rw [attach, List.takeWhile_append_of_pos hall, List.dropWhile_append_of_pos hall, htake, hdrop,
    List.append_nil]

/-- The tree that has its nodes, in tree order, indented so. -/
def ofWidths? (widths : List Nat) : Option Shape :=
  match widths.foldr attach [] with
  | [(_, shape)] => some shape
  | _ => none

end Shape

/-- The form of the tree that is printed so. -/
def shapeOf? (printed : String) : Option Shape :=
  Shape.ofWidths? ((splitLines printed).map indentation)

namespace ParseTree

open Shape

mutual

/-- In front of lines that are not indented further, the lines of a tree make one tree of its form. -/
theorem foldr_attach_preorder (depth : Nat) (t : ParseTree) {later : List (Nat × Shape)}
    (hlater : ∀ p ∈ later.head?, p.1 ≤ 2 * depth) :
    ((t.preorder depth).map (2 * ·.1)).foldr attach later = (2 * depth, t.shape) :: later := by
  cases t with
  | leaf c =>
    rw [preorder, List.map_singleton, List.foldr_cons, List.foldr_nil, shape]
    exact attach_append (List.forall_mem_nil _) hlater
  | node name children =>
    have hnear : ∀ p ∈ (shapeAll children).map (2 * (depth + 1), ·), 2 * depth < p.1 := by
      intro p hp
      obtain ⟨_, -, rfl⟩ := List.mem_map.1 hp
      exact Nat.mul_lt_mul_of_pos_left (Nat.lt_succ_self depth) (by decide)
    have hfurther : ∀ p ∈ later.head?, p.1 ≤ 2 * (depth + 1) := fun p hp =>
      (hlater p hp).trans (Nat.mul_le_mul_left 2 (Nat.le_succ depth))
    rw [preorder, List.map_cons, List.foldr_cons,
      foldr_attach_preorderAll (depth + 1) children hfurther, attach_append hnear hlater, shape,
      List.map_map]
    exact congrArg (fun shapes => (2 * depth, Shape.mk shapes) :: later) (List.map_id _)

theorem foldr_attach_preorderAll (depth : Nat) (ts : List ParseTree) {later : List (Nat × Shape)}
    (hlater : ∀ p ∈ later.head?, p.1 ≤ 2 * depth) :
    ((preorderAll depth ts).map (2 * ·.1)).foldr attach later =
      (shapeAll ts).map (2 * depth, ·) ++ later := by
  cases ts with
  | nil => rfl
  | cons t ts =>
    have hhead : ∀ p ∈ ((shapeAll ts).map (2 * depth, ·) ++ later).head?, p.1 ≤ 2 * depth := by
      cases ts with
      | nil => exact hlater
      | cons u us =>
        intro p hp
        obtain rfl := Option.some.inj hp
        exact le_rfl
    rw [preorderAll, List.map_append, List.foldr_append, foldr_attach_preorderAll depth ts hlater,
      foldr_attach_preorder depth t hhead]
    rfl

end

/-- The indentation of a printed tree tells its form. -/
theorem shapeOf?_toText {t : ParseTree} (h : ∀ p ∈ t.preorder 0, p.2.Titled) :
    shapeOf? t.toText = some t.shape := by
  have hnone : ∀ p ∈ ([] : List (Nat × Shape)).head?, p.1 ≤ 2 * 0 := fun _ hp => nomatch hp
  rw [shapeOf?, map_indentation_toText h, ofWidths?, foldr_attach_preorder 0 t hnone]

end ParseTree

example : shapeOf? "A\n  B\n    \"(\"\n    \"b\"\n  <epsilon>\n" =
    some (.mk [.mk [.mk [], .mk []], .mk []]) := by
  rfl

end PatternText
