import TurtleTrace.Machine.Run
import TurtleTrace.Session
import TurtleTrace.Settings.File
import TurtleTrace.CommandLine.Run
import TurtleTrace.Main
import TurtleTrace.Proofs.Sorting
import TurtleTrace.Proofs.Arc
import TurtleTrace.Proofs.Number.Literal
import TurtleTrace.Proofs.Number.Finite
import TurtleTrace.Proofs.Number.Whole
import TurtleTrace.Proofs.Number.Order
import TurtleTrace.Proofs.Expr.Word
import TurtleTrace.Proofs.Expr.Grammar
import TurtleTrace.Proofs.Script.Comment
import TurtleTrace.Proofs.Script.Locality
import TurtleTrace.Proofs.Script.Lines
import TurtleTrace.Proofs.Machine.Change
import TurtleTrace.Proofs.Machine.Journal
import TurtleTrace.Proofs.Machine.Pen
import TurtleTrace.Proofs.Machine.Agreement
import TurtleTrace.Proofs.Machine.Lockstep
import TurtleTrace.Proofs.Machine.CallStack
import TurtleTrace.Proofs.Machine.Limits
import TurtleTrace.Proofs.Machine.Unrolling
import TurtleTrace.Proofs.Machine.Expansion
import TurtleTrace.Proofs.Machine.Breakdown
import TurtleTrace.Proofs.Machine.Arithmetic
import TurtleTrace.Proofs.Machine.CallLine
import TurtleTrace.Proofs.Drawing.Segments
import TurtleTrace.Proofs.Drawing.Strokes
import TurtleTrace.Proofs.Comments.Reading
import TurtleTrace.Proofs.Comments.Conservation
import TurtleTrace.Proofs.Comments.Course
import TurtleTrace.Proofs.Comments.Tally
import TurtleTrace.Proofs.Comments.Attribution
import TurtleTrace.Proofs.Session.History
import TurtleTrace.Proofs.Drawing.Statistics
import TurtleTrace.Proofs.Session.Outcome
import TurtleTrace.Proofs.Expr.Written
import TurtleTrace.Proofs.Script.Coverage
import TurtleTrace.Proofs.Script.Written
import TurtleTrace.Proofs.Script.RoundTrip
import TurtleTrace.Proofs.Script.Blanked
import TurtleTrace.Proofs.Script.Nesting
import TurtleTrace.Proofs.Machine.Reachable
import TurtleTrace.Proofs.Machine.Regular
import TurtleTrace.Proofs.Drawing.Finished
import TurtleTrace.Proofs.Drawing.Lifecycle
import TurtleTrace.Proofs.Drawing.SegmentLog
import TurtleTrace.Proofs.Machine.Rounds
import TurtleTrace.Proofs.Script.Kept
import TurtleTrace.Proofs.Script.TopLevel
import TurtleTrace.Proofs.Script.Print
import TurtleTrace.Proofs.Script.OneLine
import TurtleTrace.Proofs.Script.LaterLines
import TurtleTrace.Proofs.Script.Inert
import TurtleTrace.Proofs.Drawing.Layout
import TurtleTrace.Proofs.Machine.FailureLine
import TurtleTrace.Proofs.Script.SharedLog
import TurtleTrace.Proofs.Comments.OneStroke
import TurtleTrace.Proofs.Drawing.LineLookup
import TurtleTrace.Proofs.Number.Numeral
import TurtleTrace.Proofs.Json.Reader
import TurtleTrace.Proofs.Settings.File
import TurtleTrace.Proofs.Expr.Reference
import TurtleTrace.Proofs.Script.Definition
import TurtleTrace.Proofs.Number.Range
import TurtleTrace.Proofs.Number.Exact
import TurtleTrace.Proofs.Number.Decimal
import TurtleTrace.Proofs.Script.Matching
import TurtleTrace.Proofs.Script.Unclosed
