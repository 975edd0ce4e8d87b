import XPath.Parser
import XPath.Proofs.Derivation
import XPath.Proofs.Progress
import XPath.Proofs.Run
import XPath.Proofs.Scanning
import XPath.Proofs.Tree
import XPath.Proofs.Stages
import XPath.Proofs.Productions
import XPath.Proofs.Compounds
import XPath.Proofs.Scoping
import XPath.Proofs.LoopTypes
import XPath.Proofs.Levels
import XPath.Proofs.Chain
import XPath.Proofs.Lexing
import XPath.Proofs.Steps
import XPath.Proofs.Climbing
import XPath.Proofs.ChainReading
import XPath.Proofs.Heights
import XPath.Proofs.Trivia
import XPath.Proofs.Numerals
import XPath.Proofs.Lexemes
import XPath.Proofs.Tiling
import XPath.Proofs.Lookahead
import XPath.Proofs.Spacing
import XPath.Proofs.Shift
import XPath.Proofs.Lockstep
import XPath.Proofs.Mirroring
import XPath.Proofs.Enclosing
import XPath.Proofs.Assembly
import XPath.Proofs.Assembling
import XPath.Proofs.Parentheses
import XPath.Proofs.Forms
import XPath.Proofs.Outline
import XPath.Proofs.Types
import XPath.Proofs.Conduct
import XPath.Proofs.Balance
import XPath.Proofs.Pair
import XPath.Proofs.PairReading
import XPath.Proofs.PairHosts
import XPath.Proofs.Discipline
import XPath.Proofs.Cardinality
import XPath.Proofs.Excerpts
import XPath.Proofs.Offsets
import XPath.Proofs.OffsetReading
import XPath.Proofs.Languages
import XPath.Proofs.Embedding
import XPath.Proofs.Decided
import XPath.Proofs.Directions
import XPath.Proofs.Values
import XPath.Proofs.Together
import XPath.Proofs.Following
import XPath.Proofs.FollowingReading
import XPath.Proofs.Growth
import XPath.Proofs.Switches
import XPath.Proofs.Readback
import XPath.Proofs.ReadbackPrimaries
import XPath.Proofs.ReadbackCompounds
import XPath.Proofs.Roundtrip
import XPath.Proofs.Alone
import XPath.Proofs.TypeRoundtrip
import XPath.Proofs.QNameCasts
import XPath.Proofs.Routes
import XPath.Proofs.DocumentSteps
import XPath.Proofs.Seams
import XPath.Proofs.Shadowing
import XPath.Proofs.ShadowReading
import XPath.Proofs.ClauseLists
import XPath.Proofs.Supertypes
import XPath.Proofs.Subtypes
import XPath.Proofs.Lookup
import XPath.Proofs.Warnings
import XPath.Proofs.WarningReading
import XPath.Proofs.StringLiterals
import XPath.Proofs.NumberValues
import XPath.Proofs.Naming
import XPath.Proofs.StepRoundtrip
import XPath.Proofs.Retyping
import XPath.Proofs.Budget
import XPath.Proofs.Recursion
