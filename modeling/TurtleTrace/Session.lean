import TurtleTrace.Machine.Run
import TurtleTrace.Scad
import TurtleTrace.Settings.Basic

/-!
# Sessions

A session turns one script after the other into OpenSCAD text under fixed settings and answers
questions about the last one. A script that fails while it runs keeps its diagnostics and loses its
drawing. A fault of arithmetic stops the processing in the middle: the text, what was read from it,
the diagnostics and the state of the machine are those of the new script, the rest is still that of
the script before.
-/

namespace TurtleTrace

set_option autoImplicit false

/-- What a run has drawn. -/
structure Result where
  segments : Array Segment := #[]
  polygons : Array Polygon := #[]
  markers : Array Marker := #[]
  deriving DecidableEq, Repr

def Drawing.result (d : Drawing) : Result := ⟨d.segments, d.polygons, d.markers⟩

/-- What a session tells while it processes a script. -/
inductive Notice where
  | event (e : Event)
  | runtimeError (message : Text)
  | processed (segments polygons markers : Nat)
  | failed (errors : Nat)
  deriving DecidableEq, Repr

structure Session where
  settings : Settings
  log : DiagnosticLog := {}
  machine : Machine
  parsed : Option Parsed := none
  result : Result := {}
  scad : Text := Scad.noPolygons
  text : Text := []
  successful : Bool := false
  deriving DecidableEq, Repr

namespace Session

/-- A new session; the settings have to be in their ranges. -/
def open? (settings : Settings) : Except SettingFault Session :=
  match settings.fault? with
  | some fault => .error fault
  | none => .ok { settings, machine := .idle settings.resolution }

def limits (s : Session) : Limits :=
  { callDepth := s.settings.callDepth, steps := s.settings.steps }

def style (s : Session) : Scad.Style := ⟨s.settings.indent, s.settings.circles⟩

/-- The diagnostic of a script failure, on the whole line where it happened. -/
def runtimeDiagnostic (text : Text) (fault : Fault) (line : Int) : Diagnostic :=
  let line := if line = 0 then 1 else line
  let lineText := (text.lines[(line - 1).toNat]?).getD []
  .onWholeLine line lineText fault.message .runtime .fatal

/-- Writes the text of what was drawn and settles whether the processing went well. -/
def conclude (s : Session) : Session × Notice :=
  let successful := !s.log.hasErrors
  let s := { s with scad := Scad.generate s.style s.result.polygons.toList, successful }
  (s, if successful then
      .processed s.result.segments.size s.result.polygons.size s.result.markers.size
    else .failed s.log.entries.length)

/-- Reads a script and starts over. -/
def beginText (s : Session) (text : Text) : Session × Parsed :=
  let (parsed, log) := parseInto .empty 1 text
  ({ s with log, text, parsed := some parsed }, parsed)

/-- Reads and runs a script and writes its text. Answers the new session, the fault of arithmetic that
stopped it, if any, and what it has to tell, earliest first. -/
def process (s : Session) (text : Text) : Session × Option ArithmeticFault × List Notice :=
  let (s, parsed) := s.beginText text
  match execute s.limits s.settings.resolution parsed.commands parsed.comments with
  | .done m =>
    let (s, notice) := { s with machine := m, result := m.drawing.result }.conclude
    (s, none, .event parsed.event :: m.trace.reverse.map .event ++ [notice])
  | .failed (.script fault line) m =>
    let log := s.log.report (runtimeDiagnostic text fault line)
    let (s, notice) :=
      { s with machine := .idle s.settings.resolution, result := {}, log }.conclude
    (s, none, .event parsed.event :: m.trace.reverse.map .event ++
      [.runtimeError (lineMessage line fault.message), notice])
  | .failed (.arithmetic fault) m =>
    ({ s with machine := m }, some fault, .event parsed.event :: m.trace.reverse.map .event)

/-- Whether a script can be read without diagnostics. -/
def validates (text : Text) : Bool := (parse 1 text).diagnostics.isEmpty

/-- Forgets the last script. The machine stays as it is. -/
def reset (s : Session) : Session :=
  { settings := s.settings, machine := s.machine }

/-! ## Questions -/

def segmentsOfLine (s : Session) (line : Int) : List Segment :=
  s.result.segments.toList.filter (·.line == line)

def lineOfSegment? (s : Session) (id : Int) : Option Int :=
  (s.result.segments.toList.find? fun segment => (segment.id : Int) == id).map (·.line)

def boundingBox (s : Session) : Point × Point := s.machine.drawing.boundingBox

structure Counts where
  lines : Nat
  commands : Nat
  comments : Nat
  errors : Nat
  deriving DecidableEq, Repr

def counts (s : Session) : Counts :=
  { lines := s.text.lines.length
    commands := (s.parsed.map (·.commands.length)).getD 0
    comments := (s.parsed.map (·.comments.length)).getD 0
    errors := s.log.entries.length }

/-- One line on what was drawn. -/
def summary (s : Session) : Text :=
  Text.ofNat s.result.segments.size ++ " segments, ".toList ++
    Text.ofNat (s.result.polygons.toList.countP (!·.commentOnly)) ++ " polygons, ".toList ++
    Text.ofNat s.result.markers.size ++ " markers".toList

end Session

end TurtleTrace
