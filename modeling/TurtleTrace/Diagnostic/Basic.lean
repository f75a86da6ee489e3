import TurtleTrace.Text.Basic

/-!
# Diagnostics

What is reported about a script: a message, the span it is about, its category and its severity. A span
goes from a line and column to a line and column, all counted from one; the last column is the one
after the span.
-/

namespace TurtleTrace

set_option autoImplicit false

structure Span where
  startLine : Int
  startColumn : Int
  endLine : Int
  endColumn : Int
  deriving DecidableEq, Repr

namespace Span

/-- A span on one line, at least one column wide. -/
def onLine (line first last : Int) : Span := ⟨line, first, line, max (first + 1) last⟩

/-- Whether a line belongs to the span. -/
def touches (s : Span) (line : Int) : Bool := s.startLine ≤ line && line ≤ s.endLine

end Span

inductive Category where
  | syntactic
  | semantic
  | runtime
  | warning
  deriving DecidableEq, Repr

inductive Severity where
  | warning
  | error
  | fatal
  deriving DecidableEq, Repr

structure Diagnostic where
  message : Text
  span : Span
  category : Category := .syntactic
  severity : Severity := .error
  deriving DecidableEq, Repr

/-- A message that names the line it is about. -/
def lineMessage (line : Int) (message : Text) : Text :=
  "Line ".toList ++ Text.ofInt line ++ ": ".toList ++ message

namespace Diagnostic

def line (d : Diagnostic) : Int := d.span.startLine

def text (d : Diagnostic) : Text := lineMessage d.line d.message

/-- A diagnostic on a whole line, without the blanks at its end. -/
def onWholeLine (line : Int) (lineText message : Text) (category : Category)
    (severity : Severity) : Diagnostic :=
  ⟨message, Span.onLine line 1 (lineText.trimRight.length + 1), category, severity⟩

end Diagnostic

end TurtleTrace
