import TurtleTrace.Sorting
import TurtleTrace.Diagnostic.Basic

/-!
# The log of a pass

The diagnostics of one processing pass, in the order in which they were reported. A reader that
works inside a larger pass takes a mark first and reads back only what came after it.
-/

namespace TurtleTrace

set_option autoImplicit false

structure DiagnosticLog where
  entries : List Diagnostic := []
  deriving DecidableEq, Repr

namespace DiagnosticLog

def empty : DiagnosticLog := {}

def report (log : DiagnosticLog) (d : Diagnostic) : DiagnosticLog := ⟨log.entries ++ [d]⟩

def reportAll (log : DiagnosticLog) (ds : List Diagnostic) : DiagnosticLog := ⟨log.entries ++ ds⟩

def mark (log : DiagnosticLog) : Nat := log.entries.length

/-- What was reported after a mark; a negative mark counts from the end. -/
def since (log : DiagnosticLog) (mark : Int) : List Diagnostic :=
  if mark < 0 then log.entries.drop (log.entries.length + mark).toNat
  else log.entries.drop mark.toNat

def forLine (log : DiagnosticLog) (line : Int) : List Diagnostic :=
  log.entries.filter (·.span.touches line)

/-- Whether anything worse than a warning was reported. -/
def hasErrors (log : DiagnosticLog) : Bool := log.entries.any (·.severity ≠ .warning)

def hasFatal (log : DiagnosticLog) : Bool := log.entries.any (·.severity = .fatal)

/-- Whether a diagnostic may stand before another one: by line, then by column. -/
def upTo (d e : Diagnostic) : Bool :=
  d.span.startLine < e.span.startLine ||
    (d.span.startLine == e.span.startLine && d.span.startColumn ≤ e.span.startColumn)

/-- The diagnostics by their place in the source. -/
def sorted (log : DiagnosticLog) : List Diagnostic := sortBy upTo log.entries

theorem since_mark_reportAll (log : DiagnosticLog) (ds : List Diagnostic) :
    (log.reportAll ds).since log.mark = ds := by
  have h : ¬ ((log.entries.length : Int) < 0) := by omega
  simp [since, mark, reportAll, h]

theorem sorted_perm (log : DiagnosticLog) : log.sorted.Perm log.entries := sortBy_perm _ _

end DiagnosticLog

end TurtleTrace
