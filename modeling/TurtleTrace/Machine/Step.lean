import TurtleTrace.Arc
import TurtleTrace.Machine.Basic

/-!
# What a command does

`Machine.act` carries out one action. All but the loops and calls are done with at once. A loop or a
call reads its body and asks for a frame in which the body is run.
-/

namespace TurtleTrace

set_option autoImplicit false

/-- The result of one action. -/
inductive Step where
  | done (m : Machine)
  | enter (frame : Frame) (body : List Command) (m : Machine)
  | failed (failure : Failure) (m : Machine)
  deriving DecidableEq, Repr

namespace Machine

/-- Goes on with the value of an expression. -/
def withValue (m : Machine) (line : Int) (e : Expr) (next : Float → Step) : Step :=
  match e.evaluate m.bindings with
  | .error fault => .failed (.script (.eval fault) line) m
  | .ok v => next v

/-- Goes on unless arithmetic has failed. -/
def withResult {α : Type} (m : Machine) (result : Except ArithmeticFault α) (next : α → Step) :
    Step :=
  match result with
  | .error fault => .failed (.arithmetic fault) m
  | .ok a => next a

/-! ## Motion -/

/-- Traces a straight line; with the pen down it becomes part of the open polygon. -/
def lineTo (m : Machine) (p : Point) (line : Int) : Machine :=
  let start := m.turtle.position
  let penDown := m.turtle.penDown
  { m with
    turtle := m.turtle.moveTo p
    canvas := m.canvas.onDrawing fun d =>
      let d := d.addSegment start p line penDown none
      if penDown then d.addPoint p start else d }

def moveAlong (m : Machine) (distance : Float) (line : Int) : Step :=
  m.withResult (m.turtle.position.advance m.turtle.heading distance) fun p =>
    .done (m.lineTo p line)

/-- Lifts the pen: the polygon that was being traced is finished. -/
def penUp (m : Machine) (line : Int) : Machine :=
  if m.turtle.penDown then
    { m with
      turtle := m.turtle.setPen false
      canvas := ((m.canvas.flushUpTo line).onDrawing (·.finishPolygon false none)).setCursor
        (line + 1) }
  else m

/-- Puts the pen down: a new polygon starts at the turtle. -/
def penDown (m : Machine) (line : Int) : Machine :=
  if m.turtle.penDown then m
  else
    let position := m.turtle.position
    { m with
      turtle := m.turtle.setPen true
      canvas := ((m.canvas.flushUpTo line).setCursor (line + 1)).onDrawing
        (·.ensurePolygon position) }

/-! ## Arcs -/

/-- Logs the segments between neighbouring vertices. -/
def addArcSegments (line : Int) (penDown : Bool) (group : Int) :
    List Point → Drawing → Drawing
  | p :: q :: rest, d =>
    addArcSegments line penDown group (q :: rest) (d.addSegment p q line penDown (some group))
  | _, d => d

/-- Finishes a polygon that has been traced beyond its seed, so that an arc starts a new one. -/
def closeBeforeArc (c : Canvas) (line : Int) : Canvas :=
  match c.drawing.current with
  | none => c
  | some polygon =>
    if polygon.isSeed then c
    else ((c.flushUpTo (line - 1)).onDrawing (·.finishPolygon false none)).setCursor line

/-- Makes the vertices of an arc a finished polygon. A polygon that was only seeded gives up its
point and keeps its comments. -/
def arcPolygon (c : Canvas) (line : Int) (points : Array Point) (circle : Option Circle) :
    Canvas :=
  let c := (closeBeforeArc c line).onDrawing fun d =>
    d.ensureTarget.onCurrent fun polygon => { polygon with points := points }
  ((c.flushUpTo line).onDrawing (·.finishPolygon false circle)).setCursor (line + 1)

/-- Traces an arc around the turtle, which does not move. -/
def traceArc (m : Machine) (vertices : Array Point) (angle radius : Float) (line : Int) : Machine :=
  let turtle := m.turtle.openArcGroup
  let penDown := turtle.penDown
  let canvas := m.canvas.onDrawing
    (addArcSegments line penDown turtle.arcGroups vertices.toList)
  let circle : Option Circle :=
    if angle.abs == 360 then some ⟨turtle.position, radius, turtle.resolution⟩ else none
  { m with
    turtle
    canvas := if penDown then arcPolygon canvas line (vertices.extract 1 vertices.size) circle
      else canvas }

def arc (m : Machine) (angle radius : Float) (line : Int) : Step :=
  if angle == 0 || radius == 0 then .done m
  else
    m.withResult
      (arcVertices m.turtle.position m.turtle.heading angle radius m.turtle.resolution)
      fun vertices => .done (m.traceArc vertices angle radius line)

def setResolution (m : Machine) (value : Float) (line : Int) : Step :=
  m.withResult (floorInt value) fun resolution =>
    if resolution < 1 then .failed (.script (.resolutionTooSmall value) line) m
    else .done (m.onTurtle (·.setResolution resolution))

/-! ## Notes -/

/-- Writes a note at the turtle's place in the drawing: before the next point with the pen down, and
as a polygon without geometry with the pen up. -/
def placeNote (m : Machine) (text : Text) (line : Int) : Machine :=
  let position := m.turtle.position
  if m.turtle.penDown then m.onCanvas (·.onDrawing (·.pinComments [text] position))
  else
    m.onCanvas fun c => (c.flushUpTo (line - 1)).onDrawing fun d =>
      let d := d.ensureTarget.onCurrent fun polygon =>
        { polygon with free := polygon.free.push text }
      (d.ensurePolygon position).finishPolygon true none

/-- The label of a note, or another one if it is missing or empty. -/
def labelOr (other : String) : Option Text → Text
  | none => other.toList
  | some label => if label.isEmpty then other.toList else label

def positionNote (label : Text) (p : Point) : Text :=
  "// ".toList ++ label ++ ": x=".toList ++ decimal p.x ++ ", y=".toList ++ decimal p.y

def notePosition (m : Machine) (label : Option Text) (line : Int) : Machine :=
  m.placeNote (positionNote (labelOr "Position" label) m.turtle.position) line

def addMarker (m : Machine) (label : Option Text) (p : Point) (line : Int) : Machine :=
  let m := m.onCanvas (·.onDrawing (·.addMarker p label))
  m.placeNote (positionNote (labelOr "Marker" label) p) line

/-- The texts of printed items, up to the first that has no value. -/
def printTexts (b : Bindings) : List PrintItem → Except EvalFault (List Text)
  | [] => .ok []
  | .text t :: rest => (printTexts b rest).map (t :: ·)
  | .value e :: rest =>
    match e.evaluate b with
    | .error fault => .error fault
    | .ok v => (printTexts b rest).map (decimal v :: ·)

def print (m : Machine) (items : List PrintItem) (line : Int) : Step :=
  match printTexts m.bindings items with
  | .error fault => .failed (.script (.eval fault) line) m
  | .ok texts => .done (m.placeNote ("// ".toList ++ Text.join [' '] texts) line)

/-! ## Loops and calls -/

/-- Reads a body whose first line has the given number; a body with a diagnostic is a failure. -/
def withBody (m : Machine) (firstLine : Int) (text : Text) (next : List Command → Machine → Step) :
    Step :=
  let parsed := parse firstLine text
  let m := m.record parsed.event
  match parsed.diagnostics with
  | [] => next parsed.commands m
  | d :: _ => .failed (.script (.malformedBody d.message) d.line) m

/-- Reads the list stored under a name; its commands are attributed to the line that runs it. -/
def withStored (m : Machine) (line : Int) (name : Text) (next : List Command → Machine → Step) :
    Step :=
  match m.bindings.list name with
  | .error fault => .failed (.script (.lookup fault) line) m
  | .ok text => m.withBody line text fun body m => next (body.map (·.relocate line)) m

/-- Goes on with the number of rounds of a loop, if there are any. -/
def withCount (m : Machine) (line : Int) (count : Expr) (next : Int → Step) : Step :=
  m.withValue line count fun v => m.withResult (floorInt v) fun n =>
    if n ≤ 0 then .done m else next n

def act (m : Machine) (action : Action) (line : Int) : Step :=
  match action with
  | .forward e => m.withValue line e fun v => m.moveAlong v line
  | .back e => m.withValue line e fun v => m.moveAlong (-v) line
  | .left e => m.withValue line e fun v => .done (m.onTurtle (·.turn (-v)))
  | .right e => m.withValue line e fun v => .done (m.onTurtle (·.turn v))
  | .setHeading e => m.withValue line e fun v => .done (m.onTurtle (·.setHeading v))
  | .setX e => m.withValue line e fun x => .done (m.lineTo ⟨x, m.turtle.position.y⟩ line)
  | .setY e => m.withValue line e fun y => .done (m.lineTo ⟨m.turtle.position.x, y⟩ line)
  | .setXY e f => m.withValue line e fun x => m.withValue line f fun y =>
      .done (m.lineTo ⟨x, y⟩ line)
  | .home => .done ((m.lineTo .origin line).onTurtle (·.setHeading 0))
  | .penUp => .done (m.penUp line)
  | .penDown => .done (m.penDown line)
  | .arc e f => m.withValue line e fun angle => m.withValue line f fun radius =>
      m.arc angle radius line
  | .makeNumber name e => m.withValue line e fun v => .done (m.bind name (.number v))
  | .makeList name body => .done (m.bind name (.list body))
  | .repeatBody count body bodyLine => m.withCount line count fun n =>
      m.withBody bodyLine body fun commands m =>
        .enter ⟨.repeat, line, none, n⟩ commands m
  | .repeatNamed count name => m.withCount line count fun n =>
      m.withStored line name fun commands m => .enter ⟨.repeat, line, some name, n⟩ commands m
  | .call name => m.withStored line name fun commands m =>
      .enter ⟨.call, line, some name, 1⟩ commands m
  | .print items => m.print items line
  | .setResolution e => m.withValue line e fun v => m.setResolution v line
  | .notePosition label => .done (m.notePosition label line)
  | .marker label none => .done (m.addMarker label m.turtle.position line)
  | .marker label (some (e, f)) => m.withValue line e fun x => m.withValue line f fun y =>
      .done (m.addMarker label ⟨x, y⟩ line)

end Machine

end TurtleTrace
