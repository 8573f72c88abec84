import PatternText.CharSet
import PatternText.CommandLine.Arguments
import PatternText.CommandLine.Session
import PatternText.Expr.Basic
import PatternText.Expr.Reading
import PatternText.Generation.Evaluate
import PatternText.Generation.Fault
import PatternText.Generation.Generator
import PatternText.Grammar.Basic
import PatternText.Grammar.Longest
import PatternText.Grammar.Tree
import PatternText.Main
import PatternText.Number.Exact
import PatternText.Number.Format
import PatternText.Number.Reading
import PatternText.Number.Shortest
import PatternText.Operation
import PatternText.Pattern.Rules
import PatternText.Program.Basic
import PatternText.Program.Compile
import PatternText.Program.Error
import PatternText.Proofs.CharSet
import PatternText.Proofs.CommandLine.Modes
import PatternText.Proofs.Expr.Printing
import PatternText.Proofs.FirstOccurrences
import PatternText.Proofs.Generation.Addressing
import PatternText.Proofs.Generation.Captures
import PatternText.Proofs.Generation.CountFaults
import PatternText.Proofs.Generation.Course
import PatternText.Proofs.Generation.EarlyRefusal
import PatternText.Proofs.Generation.FirstRange
import PatternText.Proofs.Generation.Forgetful
import PatternText.Proofs.Generation.Language
import PatternText.Proofs.Generation.LoopCounters
import PatternText.Proofs.Generation.Recursion
import PatternText.Proofs.Generation.Renumbering
import PatternText.Proofs.Generation.Respelling
import PatternText.Proofs.Generation.SideBySide
import PatternText.Proofs.Grammar.Calls
import PatternText.Proofs.Grammar.Choice
import PatternText.Proofs.Grammar.Derivation
import PatternText.Proofs.Grammar.Greedy
import PatternText.Proofs.Grammar.LeftRecursion
import PatternText.Proofs.Grammar.Longest
import PatternText.Proofs.Grammar.Nesting
import PatternText.Proofs.Grammar.OnDemand
import PatternText.Proofs.Grammar.PrintedTree
import PatternText.Proofs.Grammar.Queries
import PatternText.Proofs.Grammar.Rules
import PatternText.Proofs.Grammar.Spelling
import PatternText.Proofs.Grammar.Table
import PatternText.Proofs.Guarded.Building
import PatternText.Proofs.Guarded.Conformity
import PatternText.Proofs.Guarded.Digits
import PatternText.Proofs.Guarded.Machine
import PatternText.Proofs.Guarded.Session
import PatternText.Proofs.Guarded.SlotTable
import PatternText.Proofs.Number.FixedPoint
import PatternText.Proofs.Number.MarkedDigits
import PatternText.Proofs.Number.ReadingBack
import PatternText.Proofs.Number.Rounding
import PatternText.Proofs.Number.Shortest
import PatternText.Proofs.Number.Simplified
import PatternText.Proofs.Number.Trimming
import PatternText.Proofs.Number.WordFloat
import PatternText.Proofs.Number.Words
import PatternText.Proofs.Operation.FirstOfRun
import PatternText.Proofs.Operation.Isolation
import PatternText.Proofs.Pattern.Atom
import PatternText.Proofs.Pattern.CharList
import PatternText.Proofs.Pattern.Completeness
import PatternText.Proofs.Pattern.ErrorPlace
import PatternText.Proofs.Pattern.Expression
import PatternText.Proofs.Pattern.Inversion
import PatternText.Proofs.Pattern.ListScan
import PatternText.Proofs.Pattern.Openings
import PatternText.Proofs.Pattern.Parts
import PatternText.Proofs.Pattern.Syntax
import PatternText.Proofs.Program.Braces
import PatternText.Proofs.Program.Classes
import PatternText.Proofs.Program.Compose
import PatternText.Proofs.Program.Escaping
import PatternText.Proofs.Program.GroupNodes
import PatternText.Proofs.Program.GroupSteps
import PatternText.Proofs.Program.ListChars
import PatternText.Proofs.Program.Numbering
import PatternText.Proofs.Program.Operands
import PatternText.Proofs.Program.PrintedPattern
import PatternText.Proofs.Program.Shift
import PatternText.Proofs.Program.Translation
import PatternText.Proofs.Random.Uniform
import PatternText.Proofs.Text.Quoted
import PatternText.Random.Chooser
import PatternText.Random.WordSource
import PatternText.Settings
import PatternText.Source.CharClass
import PatternText.Source.CodeRange
import PatternText.Source.Engine
import PatternText.Source.Footprint
import PatternText.Source.Machine
import PatternText.Source.Matcher
import PatternText.Source.Reading
import PatternText.Source.Regex
import PatternText.Source.Search
import PatternText.Text.Blank
import PatternText.Text.DecimalDigit
import PatternText.Text.Edges
import PatternText.Text.LetterCase
import PatternText.Text.Lines
import PatternText.Text.Printing
import PatternText.Text.Quoted
import PatternText.Text.WordChar
