import PatternText.Proofs.Generation.FirstRange
import PatternText.Proofs.Generation.Language
import PatternText.Proofs.Operation.Ranges

/-! The first range of an operation. An operation forgets the first range before it begins, so the
groups remembered while it runs are those of the earliest of its own ranges that looks at the first one,
from that look on and to its end. -/

namespace PatternText

namespace Generator

variable {σ : Type}

section

variable [Chooser σ] (g : Generator σ) (groupsOf : String → Array (Option String))
  (originals : List String)

variable {originals} {k : Nat} {original : String}

end

end Generator

end PatternText
