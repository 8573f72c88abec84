import PatternText.Source.Regex

/-! Machines for matching patterns. A machine is a table of states joined by their numbers; a fork
names the preferred way first. A pattern is compiled from its end: given the state where matching goes
on afterwards, it adds its own states and yields the one to enter. Loops need the number of a state
before what it leads to exists, so a place is taken first and filled in afterwards. -/

namespace PatternText.Source

inductive MachineState where
  /-- Takes a character of the class. -/
  | take (chars : CharClass) (next : Nat)
  | check (anchor : Anchor) (next : Nat)
  | fork (preferred other : Nat)
  /-- Notes the current place in a slot. -/
  | mark (slot next : Nat)
  | done
  deriving DecidableEq, Repr

instance : Inhabited MachineState := ⟨.done⟩

structure Machine where
  states : Array MachineState
  start : Nat
  /-- The number of groups, the whole match included. -/
  groupCount : Nat
  deriving DecidableEq

namespace Machine

/-- The states so far. -/
abbrev Table := Array MachineState

/-- The table with one more state, and the number of that state. -/
def add (table : Table) (state : MachineState) : Nat × Table :=
  (table.size, table.push state)

/-- A fork between going on with a body and leaving. -/
def loopFork (greedy : Bool) (body next : Nat) : MachineState :=
  if greedy then .fork body next else .fork next body

/-- So many copies of a body, one after the other, before `next`. -/
def copies (body : Nat → Table → Nat × Table) : Nat → Nat → Table → Nat × Table
  | 0, next, table => (next, table)
  | n + 1, next, table =>
    let (entry, table) := body next table
    copies body n entry table

/-- So many copies of a body before `next`, each of them after a fork that leaves for `out`. -/
def optionalCopies (greedy : Bool) (body : Nat → Table → Nat × Table) (out : Nat) :
    Nat → Nat → Table → Nat × Table
  | 0, next, table => (next, table)
  | n + 1, next, table =>
    let (entry, table) := body next table
    let (fork, table) := add table (loopFork greedy entry out)
    optionalCopies greedy body out n fork table

/-- One round of a body and any number of further rounds before `next`: the entry of the first round,
and the fork after each. -/
def onePlus (greedy : Bool) (body : Nat → Table → Nat × Table) (next : Nat) (table : Table) :
    Nat × Nat × Table :=
  let (fork, table) := add table .done
  let (entry, table) := body fork table
  (entry, fork, table.setIfInBounds fork (loopFork greedy entry next))

/-- The states of a pattern before `next`. A loop whose body may be empty is an optional loop of at
least one round, so that the round that takes nothing is preferred in its turn; other loops enter at
their fork. -/
def compile : Regex → Nat → Table → Nat × Table
  | .empty, next, table => (next, table)
  | .one chars, next, table => add table (.take chars next)
  | .anchor a, next, table => add table (.check a next)
  | .group index body, next, table =>
    let (close, table) := add table (.mark (2 * index + 1) next)
    let (entry, table) := compile body close table
    add table (.mark (2 * index) entry)
  | .seq front back, next, table =>
    let (middle, table) := compile back next table
    compile front middle table
  | .alt preferred other, next, table =>
    let (first, table) := compile preferred next table
    let (second, table) := compile other next table
    add table (.fork first second)
  | .rounds least (some most) greedy body, next, table =>
    let (entry, table) := optionalCopies greedy (compile body) next (most - least) next table
    copies (compile body) least entry table
  | .rounds 0 none greedy body, next, table =>
    let (entry, fork, table) := onePlus greedy (compile body) next table
    if 0 < body.leastLength then (fork, table) else add table (loopFork greedy entry next)
  | .rounds (least + 1) none greedy body, next, table =>
    let (entry, _, table) := onePlus greedy (compile body) next table
    copies (compile body) least entry table

/-- The machine of a pattern. The whole match is the group zero. -/
def ofRegex (r : Regex) : Machine :=
  let (done, table) := add #[] .done
  let (start, states) := compile (.group 0 r) done table
  { states, start, groupCount := r.lastGroup + 1 }

end Machine

end PatternText.Source
