import PatternText.Text.Quoted

/-! Parse trees. A leaf holds the character that a terminal took, or nothing; every other node bears
the name of a non-terminal. The text of a tree is what its leaves spell. Trees of long texts are deep,
so each walk keeps its own list of what is still to be visited: a forest in tree order. -/

namespace PatternText

/-- A derivation of a text. -/
inductive ParseTree where
  | leaf (char? : Option Char)
  | node (name : String) (children : List ParseTree)
  deriving Repr

namespace ParseTree

instance : Inhabited ParseTree := ⟨leaf none⟩

/-- The name of a node, none for a leaf. -/
def name? : ParseTree → Option String
  | leaf _ => none
  | node name _ => some name

def children : ParseTree → List ParseTree
  | leaf _ => []
  | node _ children => children

/-- Whether the node bears this name. -/
def bears (t : ParseTree) (name : String) : Bool :=
  t.name? == some name

private theorem sizeOf_append (ts us : List ParseTree) :
    sizeOf (ts ++ us) + 1 = sizeOf ts + sizeOf us := by
  induction ts with
  | nil => simp; omega
  | cons t ts ih => simp only [List.cons_append, List.cons.sizeOf_spec]; omega

/-- Opening a tree of a forest leaves less to be visited. -/
theorem sizeOf_children_append_lt (t : ParseTree) (ts : List ParseTree) :
    sizeOf (t.children ++ ts) < sizeOf (t :: ts) := by
  have := sizeOf_append t.children ts
  cases t with
  | leaf _ =>
    simp only [children, List.nil_append, List.cons.sizeOf_spec, leaf.sizeOf_spec]
    omega
  | node _ _ =>
    simp only [children, List.cons.sizeOf_spec, node.sizeOf_spec] at this ⊢
    omega

theorem sizeOf_tail_lt (t : ParseTree) (ts : List ParseTree) : sizeOf ts < sizeOf (t :: ts) := by
  simp only [List.cons.sizeOf_spec]
  omega

theorem sizeOf_children_lt (t : ParseTree) : sizeOf t.children < sizeOf [t] := by
  have := sizeOf_children_append_lt t []
  rwa [List.append_nil] at this

/-- The text before, followed by what the forest spells. -/
def spell (acc : String) : List ParseTree → String
  | [] => acc
  | leaf c :: ts => spell (c.elim acc acc.push) ts
  | node _ children :: ts => spell acc (children ++ ts)
termination_by ts => sizeOf ts
decreasing_by
  · exact sizeOf_tail_lt _ _
  · exact sizeOf_children_append_lt (node _ children) ts

/-- What the tree spells. -/
def text (t : ParseTree) : String := spell "" [t]

/-- The outermost trees of a forest that bear a name, after those found before. -/
def collectNamed (name : String) (found : Array ParseTree) : List ParseTree → Array ParseTree
  | [] => found
  | t :: ts =>
    if t.bears name then collectNamed name (found.push t) ts
    else collectNamed name found (t.children ++ ts)
termination_by ts => sizeOf ts
decreasing_by
  · exact sizeOf_tail_lt _ _
  · exact sizeOf_children_append_lt _ _

/-- The trees that bear a name and lie in no other tree that does, from left to right. -/
def findAll (t : ParseTree) (name : String) : List ParseTree :=
  (collectNamed name #[] [t]).toList

/-- The first tree of a forest, counting a tree before its children, that bears a name. -/
def firstNamed (name : String) : List ParseTree → Option ParseTree
  | [] => none
  | t :: ts => if t.bears name then some t else firstNamed name (t.children ++ ts)
termination_by ts => sizeOf ts
decreasing_by exact sizeOf_children_append_lt _ _

/-- The first tree that bears a name, the tree itself included. -/
def findFirst (t : ParseTree) (name : String) : Option ParseTree :=
  firstNamed name [t]

/-- The line of a single node: its name, its quoted character, or a mark for nothing. -/
def label : ParseTree → String
  | leaf (some c) => Quoted.ofString (String.singleton c)
  | leaf none => "<epsilon>"
  | node name _ => name

/-- The lines of a forest after those before. Each tree comes with its depth. -/
def printFrom (acc : String) : List (Nat × ParseTree) → String
  | [] => acc
  | (depth, t) :: ts =>
    printFrom (acc ++ String.ofList (List.replicate (2 * depth) ' ') ++ t.label ++ "\n")
      (t.children.map (depth + 1, ·) ++ ts)
termination_by ts => sizeOf (ts.map Prod.snd)
decreasing_by
  simpa [Function.comp_def] using sizeOf_children_append_lt t (ts.map Prod.snd)

/-- One line for each node, indented by its depth. -/
def toText (t : ParseTree) : String := printFrom "" [(0, t)]

end ParseTree

end PatternText
