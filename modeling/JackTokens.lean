import JackTokens.Main
import JackTokens.Proofs.Composition
import JackTokens.Proofs.Contents
import JackTokens.Proofs.Front
import JackTokens.Proofs.Lossless
import JackTokens.Proofs.OnePass
import JackTokens.Proofs.Phases
import JackTokens.Proofs.Reading
import JackTokens.Proofs.Rendering
import JackTokens.Proofs.Run
import JackTokens.Proofs.Transitions
import JackTokens.Proofs.Boundaries
import JackTokens.Proofs.Failure
import JackTokens.Proofs.Uncommented
import JackTokens.Proofs.Provenance
import JackTokens.Proofs.LineNumbers
import JackTokens.Proofs.Requests
import JackTokens.Proofs.Progress
import JackTokens.Proofs.Encoding
import JackTokens.Proofs.IllFormed
import JackTokens.Proofs.Shapes
import JackTokens.Proofs.Splitting
import JackTokens.Proofs.Paths
import JackTokens.Proofs.Listing
import JackTokens.Proofs.Showing
import JackTokens.Proofs.Decoding
import JackTokens.Proofs.Documents
import JackTokens.Proofs.Modes
import JackTokens.Proofs.Journal
import JackTokens.Proofs.Lexemes
import JackTokens.Proofs.WrittenStrings
import JackTokens.Proofs.WrittenSettings
import JackTokens.Proofs.Saving
import JackTokens.Proofs.Restoring
import JackTokens.Proofs.RuleOrder
import JackTokens.Proofs.SkippedLines
import JackTokens.Proofs.Layering
import JackTokens.Proofs.Units
import JackTokens.Proofs.FailedOutput
import JackTokens.Proofs.CursorFaults
import JackTokens.Proofs.Paving
import JackTokens.Proofs.InitEffects
import JackTokens.Proofs.Summaries
