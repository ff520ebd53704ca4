import PegMatcher.Action
import PegMatcher.Binary64
import PegMatcher.Config
import PegMatcher.Cursor.Basic
import PegMatcher.Cursor.Slice
import PegMatcher.Cursor.Stream
import PegMatcher.Cursor.Text
import PegMatcher.Decimal
import PegMatcher.Diagnostic
import PegMatcher.Element
import PegMatcher.Grammar.Basic
import PegMatcher.Grammar.Builder
import PegMatcher.Grammar.CharRules
import PegMatcher.Grammar.Rule
import PegMatcher.Run.Fuel
import PegMatcher.Run.Match
import PegMatcher.Run.Message
import PegMatcher.Run.Parser
import PegMatcher.Run.State
import PegMatcher.Text
import PegMatcher.Unicode
import PegMatcher.Value.Basic
import PegMatcher.Value.Equality
import PegMatcher.Value.Form
import PegMatcher.Value.Lemmas
import PegMatcher.Value.Printer
import PegMatcher.Value.Text
import PegMatcher.ValueVector.Basic
import PegMatcher.ValueVector.Kind
import PegMatcher.ValueVector.Lemmas
import PegMatcher.Proofs.Adequacy
import PegMatcher.Proofs.Reading.Basic
import PegMatcher.Proofs.Reading.Shared
import PegMatcher.Proofs.Reading.Slice
import PegMatcher.Proofs.Reading.Stream
import PegMatcher.Proofs.Reading.Text
import PegMatcher.Proofs.Reading.Memoization
import PegMatcher.Proofs.Building
import PegMatcher.Proofs.Aborts
import PegMatcher.Proofs.Peg.Adequacy
import PegMatcher.Proofs.DepthLimit
import PegMatcher.Proofs.Termination
import PegMatcher.Proofs.FurthestFailure
import PegMatcher.Proofs.History
import PegMatcher.Proofs.PriorState
import PegMatcher.Proofs.Simulation.Evaluation
import PegMatcher.Proofs.Simulation.Records
import PegMatcher.Proofs.Simulation.Report
import PegMatcher.Proofs.Simulation.Unread
import PegMatcher.Proofs.HonestFailure
import PegMatcher.Proofs.Lossless
import PegMatcher.Proofs.Elements
import PegMatcher.Proofs.Alike
import PegMatcher.Proofs.Representation
import PegMatcher.Proofs.Recognition
import PegMatcher.Proofs.Interchange
import PegMatcher.Proofs.Causality
import PegMatcher.Proofs.Translation
import PegMatcher.Proofs.Inlining
import PegMatcher.Proofs.Moments
import PegMatcher.Proofs.Lookups
import PegMatcher.Proofs.StackDiscipline
import PegMatcher.Proofs.Diagnosis
import PegMatcher.Proofs.CanonicalForm
import PegMatcher.Proofs.Equality
import PegMatcher.Proofs.RightRecursion
import PegMatcher.Proofs.Places
import PegMatcher.Proofs.Rendering
import PegMatcher.Proofs.KindAgreement
import PegMatcher.Proofs.Repetition
import PegMatcher.Proofs.FirstFault
import PegMatcher.Proofs.Placeholders
import PegMatcher.Proofs.Extraction
import PegMatcher.Proofs.Collapsing
import PegMatcher.Proofs.VectorLists
import PegMatcher.Proofs.Messages
