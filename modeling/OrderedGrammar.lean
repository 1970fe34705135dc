import OrderedGrammar.Main
import OrderedGrammar.Transform.Stock
import OrderedGrammar.Proofs.Matching.Depth
import OrderedGrammar.Proofs.Grammar.Calls
import OrderedGrammar.Proofs.Grammar.Language
import OrderedGrammar.Proofs.Grammar.LeftCalls
import OrderedGrammar.Proofs.Language.Longest
import OrderedGrammar.Proofs.Matching.Meaning
import OrderedGrammar.Proofs.Matching.Munch
import OrderedGrammar.Proofs.Matching.Nesting
import OrderedGrammar.Proofs.Matching.Termination
import OrderedGrammar.Proofs.Number.Decimal
import OrderedGrammar.Proofs.Points.Accepts
import OrderedGrammar.Proofs.Points.Calls
import OrderedGrammar.Proofs.Notation.Reprinting
import OrderedGrammar.Proofs.Transform.Calls
import OrderedGrammar.Proofs.Matching.Flattening
import OrderedGrammar.Proofs.Notation.Quoting
import OrderedGrammar.Proofs.Command.ExitCodes
import OrderedGrammar.Proofs.Matching.Reentry
import OrderedGrammar.Proofs.Points.Depth
import OrderedGrammar.Proofs.Command.Debug
import OrderedGrammar.Proofs.Matching.Quantifiers
import OrderedGrammar.Proofs.Matching.Unrolling
import OrderedGrammar.Proofs.Matching.Undefined
import OrderedGrammar.Proofs.Matching.Tags
import OrderedGrammar.Proofs.Matching.Frame
import OrderedGrammar.Proofs.Transform.Untransformed
import OrderedGrammar.Proofs.Matching.Translation
import OrderedGrammar.Proofs.Notation.WellFormed
import OrderedGrammar.Proofs.Notation.Faults
import OrderedGrammar.Proofs.Notation.Concatenation
import OrderedGrammar.Proofs.Source.Lines
import OrderedGrammar.Proofs.Tree.Printed
import OrderedGrammar.Proofs.Notation.RegexLines
import OrderedGrammar.Proofs.Command.LineEnds
