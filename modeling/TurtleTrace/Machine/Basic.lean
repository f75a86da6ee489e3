import TurtleTrace.CommentQueue
import TurtleTrace.Expr.Eval
import TurtleTrace.Number.Fixed
import TurtleTrace.Script.Parser

/-!
# The machine

The state of a run: turtle, drawing with its waiting comments, bindings, the number of commands
started and the line of the last one, and a trace of what the run has read and entered.

A run ends early in one of two ways. A script failure has a cause and a line; a fault of arithmetic
has neither a line nor a place in the language.
-/

namespace TurtleTrace

set_option autoImplicit false

/-! ## Failures -/

/-- Why a script fails while it runs. -/
inductive Fault where
  | eval (fault : EvalFault)
  | lookup (fault : LookupFault)
  | malformedBody (message : Text)
  | resolutionTooSmall (value : Float)
  | tooManySteps (limit : Int)
  | tooDeep (limit : Int)
  | nestingExhausted
  deriving DecidableEq, Repr

def Fault.message : Fault → Text
  | eval fault => fault.message
  | lookup fault => fault.message
  | malformedBody message => "Error in instruction list: ".toList ++ message
  | resolutionTooSmall value => "EXTSETFN value must be at least 1, got ".toList ++ decimal value
  | tooManySteps limit =>
    "Maximum of ".toList ++ Text.ofInt limit ++ " executed commands exceeded".toList
  | tooDeep limit => "Maximum call depth of ".toList ++ Text.ofInt limit ++ " exceeded".toList
  | nestingExhausted => "Maximum call depth exceeded".toList

inductive Failure where
  | script (fault : Fault) (line : Int)
  | arithmetic (fault : ArithmeticFault)
  deriving DecidableEq, Repr

/-! ## Trace -/

/-- A loop or a call of a stored list that is being run. -/
structure Frame where
  kind : Kind
  line : Int
  name : Option Text
  count : Int
  deriving DecidableEq, Repr

inductive Event where
  | parsed (statements commands diagnostics comments : Nat)
  | entered (frame : Frame) (depth : Nat)
  | finished (steps segments polygons markers : Nat)
  deriving DecidableEq, Repr

def Parsed.event (p : Parsed) : Event :=
  .parsed p.statementCount p.commands.length p.diagnostics.length p.comments.length

/-! ## State -/

/-- The state of a run; the trace has the latest event first. -/
structure Machine where
  turtle : Turtle := {}
  canvas : Canvas := {}
  bindings : Bindings := {}
  steps : Nat := 0
  line : Option Int := none
  trace : List Event := []
  deriving DecidableEq, Repr

namespace Machine

def drawing (m : Machine) : Drawing := m.canvas.drawing

/-- A machine that has not run anything. -/
def idle (resolution : Int) : Machine := { turtle := .start resolution }

/-- A machine at the start of a run: a polygon is open at the origin. -/
def start (resolution : Int) (comments : List Comment) : Machine :=
  { turtle := .start resolution
    canvas :=
      { drawing := Drawing.empty.startPolygon (some .origin)
        queue := .ofComments comments } }

def onCanvas (m : Machine) (f : Canvas → Canvas) : Machine := { m with canvas := f m.canvas }

def onTurtle (m : Machine) (f : Turtle → Turtle) : Machine := { m with turtle := f m.turtle }

def record (m : Machine) (event : Event) : Machine := { m with trace := event :: m.trace }

def bind (m : Machine) (name : Text) (value : Value) : Machine :=
  { m with bindings := m.bindings.set name value }

/-- Counts a command that starts and notes its line. -/
def begin (m : Machine) (line : Int) : Machine :=
  { m with steps := m.steps + 1, line := some line }

/-- Places the comments above a command that is about to run. -/
def placeComments (m : Machine) (kind : Kind) (line : Int) : Machine :=
  { m with canvas := m.canvas.beforeCommand kind line m.turtle.penDown m.turtle.position }

end Machine

/-- How a run or a part of it ends; the state is kept when it fails. -/
inductive Outcome where
  | done (m : Machine)
  | failed (failure : Failure) (m : Machine)
  deriving DecidableEq, Repr

namespace Outcome

def machine : Outcome → Machine
  | done m => m
  | failed _ m => m

/-- Goes on from a state that was reached without failure. -/
def andThen (o : Outcome) (next : Machine → Outcome) : Outcome :=
  match o with
  | done m => next m
  | failed failure m => failed failure m

end Outcome

end TurtleTrace
