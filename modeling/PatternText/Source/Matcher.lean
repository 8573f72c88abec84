import PatternText.Source.Footprint
import PatternText.Source.Reading
import PatternText.Source.Search

/-! The engine of this project. It reads a pattern, compiles it to a machine if that is small enough, and
searches texts with the machine. -/

namespace PatternText.Source

namespace Machine

/-- The machine of a pattern, if the text is one and is small enough. -/
def ofText? (flags : Flags) (text : String) : Option Machine :=
  ((Regex.read? flags text).filter Footprint.fits).map ofRegex

def searcher (m : Machine) : Searcher where
  firstMatch? text :=
    let chars := text.toList.toArray
    (m.search chars 0).map fun slots => (Array.range m.groupCount).map (groupText chars slots)
  allMatches text :=
    let chars := text.toList.toArray
    (m.searchAll chars (chars.size + 2) 0 none).toArray.map fun slots =>
      (groupText chars slots 0).getD ""

def engine : Engine := fun flags text => (ofText? flags text).map searcher

/-- A search for all matches ends where the first one is not found. -/
theorem coherent_engine : engine.Coherent := by
  intro flags pattern searcher hsearcher text hnone
  obtain ⟨m, -, rfl⟩ := Option.map_eq_some_iff.1 hsearcher
  have hsearch : m.search text.toList.toArray 0 = none := Option.map_eq_none_iff.1 hnone
  simp [Machine.searcher, searchAll, hsearch]

end Machine

/-- The matcher of a pattern that this engine reads. -/
def Matcher.ofPattern (pattern : String) : Except PatternError Matcher :=
  read Machine.engine pattern

end PatternText.Source
