import TurtleTrace.Drawing.LineIndex
import TurtleTrace.Drawing.Polygon
import TurtleTrace.Number.Length

/-!
# Drawings

Everything that a run has traced so far: the log of segments with its index by line, the finished
polygons, the polygon that is being traced, the markers, and the lengths.

A segment is a straight line that the turtle has traced; it knows its number, the line of the script
that traced it, and the arc it belongs to, if any. A marker is a note for previews.
-/

namespace TurtleTrace

set_option autoImplicit false

def Point.distance (p q : Point) : Float := vectorLength (p.x - q.x) (p.y - q.y)

structure Segment where
  id : Nat
  line : Int
  start : Point
  stop : Point
  penDown : Bool
  arcGroup : Option Int := none
  deriving DecidableEq, Repr

def Segment.length (s : Segment) : Float := s.start.distance s.stop

structure Marker where
  position : Point
  comment : Option Text := none
  deriving DecidableEq, Repr

/-- A drawing; `counter` is the number of the next segment. -/
structure Drawing where
  segments : Array Segment := #[]
  polygons : Array Polygon := #[]
  markers : Array Marker := #[]
  lines : LineIndex := {}
  current : Option Polygon := none
  counter : Nat := 0
  totalLength : Float := 0
  penDownLength : Float := 0
  penUpLength : Float := 0
  deriving DecidableEq, Repr

namespace Drawing

def empty : Drawing := {}

/-! ## Segments and markers -/

def addSegment (d : Drawing) (start stop : Point) (line : Int) (penDown : Bool)
    (arcGroup : Option Int) : Drawing :=
  let length := start.distance stop
  { d with
    segments := d.segments.push ⟨d.counter, line, start, stop, penDown, arcGroup⟩
    lines := d.lines.add line d.counter
    counter := d.counter + 1
    totalLength := d.totalLength + length
    penDownLength := if penDown then d.penDownLength + length else d.penDownLength
    penUpLength := if penDown then d.penUpLength else d.penUpLength + length }

def addMarker (d : Drawing) (position : Point) (comment : Option Text) : Drawing :=
  { d with markers := d.markers.push ⟨position, comment⟩ }

/-! ## Polygons -/

/-- Opens a new polygon, with a first point or without one. -/
def startPolygon (d : Drawing) (seed : Option Point) : Drawing :=
  { d with current := some (match seed with | none => .empty | some p => .seeded p) }

/-- Sees to it that a polygon with at least one point is open. -/
def ensurePolygon (d : Drawing) (position : Point) : Drawing :=
  match d.current with
  | none => { d with current := some (.seeded position) }
  | some polygon =>
    if polygon.points.isEmpty then { d with current := some (polygon.addPoint position) } else d

/-- Sees to it that a polygon is open, an empty one if need be. -/
def ensureTarget (d : Drawing) : Drawing :=
  match d.current with
  | none => { d with current := some .empty }
  | some _ => d

/-- Changes the open polygon, if there is one. -/
def onCurrent (d : Drawing) (f : Polygon → Polygon) : Drawing :=
  { d with current := d.current.map f }

/-- Adds a point to the open polygon, which is opened at `position` if need be. -/
def addPoint (d : Drawing) (point position : Point) : Drawing :=
  (d.ensurePolygon position).onCurrent (·.addPoint point)

/-- Adds comments to the open polygon, or to an empty one that is opened for them. -/
def addComments (d : Drawing) (texts : List Text) : Drawing :=
  d.ensureTarget.onCurrent (·.addComments texts)

/-- Pins comments before the next point of the open polygon, which is opened at `position` if need
be. -/
def pinComments (d : Drawing) (texts : List Text) (position : Point) : Drawing :=
  (d.ensurePolygon position).onCurrent (·.pinHere texts)

/-- Closes the open polygon. One that never got a point only carries comments. -/
def finishPolygon (d : Drawing) (commentOnly : Bool) (circle : Option Circle) : Drawing :=
  match d.current with
  | none => d
  | some polygon =>
    let finished :=
      { polygon with commentOnly := commentOnly || polygon.points.isEmpty, circle }
    { d with polygons := d.polygons.push finished, current := none }

/-! ## Queries -/

/-- The segments that a line has traced, through the index. -/
def segmentsOfLine (d : Drawing) (line : Int) : List Segment :=
  (d.lines.ids line).toList.filterMap (d.segments[·]?)

/-- The segments of one arc group, or of all arcs. -/
def arcSegments (d : Drawing) (group : Option Int) : List Segment :=
  match group with
  | none => d.segments.toList.filter (·.arcGroup.isSome)
  | some g => d.segments.toList.filter (·.arcGroup == some g)

/-- The ends of all segments, then the markers. -/
def allPoints (d : Drawing) : List Point :=
  d.segments.toList.flatMap (fun s => [s.start, s.stop]) ++ d.markers.toList.map (·.position)

/-- The first of the smallest numbers; a number that is not one never replaces another. -/
def least (first : Float) (rest : List Float) : Float :=
  rest.foldl (fun a b => if b < a then b else a) first

/-- The first of the largest numbers. -/
def greatest (first : Float) (rest : List Float) : Float :=
  rest.foldl (fun a b => if b > a then b else a) first

/-- The lowest and the highest corner around all points; the origin if there is none. -/
def boundingBox (d : Drawing) : Point × Point :=
  match d.allPoints with
  | [] => (.origin, .origin)
  | p :: rest =>
    let xs := rest.map (·.x)
    let ys := rest.map (·.y)
    (⟨least p.x xs, least p.y ys⟩, ⟨greatest p.x xs, greatest p.y ys⟩)

structure Statistics where
  segments : Nat
  penDownSegments : Nat
  penUpSegments : Nat
  arcSegments : Nat
  arcGroups : Nat
  totalLength : Float
  penDownLength : Float
  penUpLength : Float
  polygons : Nat
  commentOnlyPolygons : Nat
  markers : Nat
  lines : Nat
  deriving DecidableEq, Repr

def statistics (d : Drawing) : Statistics :=
  let penDown := d.segments.toList.countP (·.penDown)
  let groups := (d.segments.toList.filterMap (·.arcGroup)).eraseReps.eraseDups
  let commentOnly := d.polygons.toList.countP (·.commentOnly)
  { segments := d.segments.size
    penDownSegments := penDown
    penUpSegments := d.segments.size - penDown
    arcSegments := (d.arcSegments none).length
    arcGroups := groups.length
    totalLength := d.totalLength
    penDownLength := d.penDownLength
    penUpLength := d.penUpLength
    polygons := d.polygons.size - commentOnly
    commentOnlyPolygons := commentOnly
    markers := d.markers.size
    lines := d.lines.size }

end Drawing

end TurtleTrace
