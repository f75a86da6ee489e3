import TurtleTrace.Proofs.Comments.Reading
import TurtleTrace.Proofs.Drawing.Segments
import TurtleTrace.Proofs.Machine.Lockstep
import TurtleTrace.Proofs.Machine.Pen

/-!
# Comments do not steer

The course of a drawing is what is left of it when the comments are taken away: the log, the outlines
of the finished polygons, and the trail along which the open polygon goes on. A comment may open a
polygon early, or leave one without points behind, but it does not change the course, and whatever an
action does to a drawing it does to the course. Two runs of the same commands therefore keep the same
course, whatever comments they place.

* `Drawing.course`: a drawing without its comments.
* `Machine.SameCourse`: the relation between two runs.
* `Machine.SameWork`: what two runs have in common in the end.
-/

namespace TurtleTrace

set_option autoImplicit false

/-! ## Courses -/

namespace Drawing

/-- Points and circle of each finished polygon that has at least two points. -/
def outlines (d : Drawing) : List (Array Point × Option Circle) :=
  (d.polygons.toList.filter (2 ≤ ·.points.size)).map fun p => (p.points, p.circle)

/-- The points of the open polygon, which is started at `position` if it has none. -/
def trail (d : Drawing) (position : Point) : Array Point :=
  match d.current with
  | none => #[position]
  | some p => if p.points.isEmpty then #[position] else p.points

end Drawing

/-- What is left of a drawing without its comments. -/
structure Course where
  log : Drawing
  outlines : List (Array Point × Option Circle)
  trail : Array Point

namespace Course

def onLog (c : Course) (f : Drawing → Drawing) : Course := { c with log := f c.log }

def withTrail (c : Course) (trail : Array Point) : Course := { c with trail }

/-- Goes on to a point. -/
def extend (c : Course) (p : Point) : Course := c.withTrail (c.trail.push p)

/-- Ends the trail, which is an outline if it has got anywhere, and starts a new one. -/
def close (c : Course) (circle : Option Circle) (position : Point) : Course :=
  { c with
    outlines := if 2 ≤ c.trail.size then c.outlines ++ [(c.trail, circle)] else c.outlines
    trail := #[position] }

end Course

namespace Drawing

def course (d : Drawing) (position : Point) : Course := ⟨d.log, d.outlines, d.trail position⟩

variable {d : Drawing} {position : Point}

theorem trail_of_none (h : d.current = none) (position : Point) : d.trail position = #[position] := by
  simp only [trail, h]

theorem trail_of_some {p : Polygon} (h : d.current = some p) (position : Point) :
    d.trail position = if p.points.isEmpty then #[position] else p.points := by
  simp only [trail, h]

theorem trail_of_traced {p : Polygon} (h : d.current = some p) (hs : p.isSeed = false)
    (position : Point) : d.trail position = p.points := by
  have hsize : 1 < p.points.size := by simpa [Polygon.isSeed] using hs
  have hne : ¬ p.points.isEmpty = true := by
    rw [Array.isEmpty_iff_size_eq_zero]
    omega
  rw [trail_of_some h, if_neg hne]

theorem size_trail_of_isSeed {p : Polygon} (h : d.current = some p) (hs : p.isSeed = true)
    (position : Point) : (d.trail position).size = 1 := by
  have hsize : p.points.size ≤ 1 := by simpa [Polygon.isSeed] using hs
  rw [trail_of_some h]
  split
  · rfl
  · rename_i hne
    rw [Array.isEmpty_iff_size_eq_zero] at hne
    omega

/-- Without an open polygon the trail starts wherever the turtle is. -/
theorem course_of_none (h : d.current = none) (position other : Point) :
    d.course other = (d.course position).withTrail #[other] := by
  simp only [course, trail_of_none h, Course.withTrail]

/-! ### What comments do -/

theorem course_onCurrent {f : Polygon → Polygon} (h : ∀ p, (f p).points = p.points) (d : Drawing)
    (position : Point) : (d.onCurrent f).course position = d.course position := by
  have htrail : (d.onCurrent f).trail position = d.trail position := by
    cases hc : d.current with
    | none => simp [trail, onCurrent, hc]
    | some p => simp [trail, onCurrent, hc, h p]
  unfold course
  rw [htrail]
  rfl

theorem course_ensureTarget (d : Drawing) (position : Point) :
    d.ensureTarget.course position = d.course position := by
  unfold ensureTarget
  split
  · rename_i hc
    unfold course
    rw [trail_of_none hc]
    rfl
  · rfl

theorem course_ensurePolygon (d : Drawing) (position : Point) :
    (d.ensurePolygon position).course position = d.course position := by
  unfold ensurePolygon
  split
  · rename_i hc
    unfold course
    rw [trail_of_none hc]
    rfl
  · rename_i p hc
    split
    · rename_i he
      have hpoints : p.points = #[] := Array.isEmpty_iff.mp he
      unfold course
      rw [trail_of_some hc, if_pos he]
      simp [log, outlines, trail, Polygon.addPoint, hpoints]
    · rfl

theorem course_addComments (texts : List Text) (d : Drawing) (position : Point) :
    (d.addComments texts).course position = d.course position := by
  unfold addComments
  rw [course_onCurrent, course_ensureTarget]
  intro p
  unfold Polygon.addComments
  split
  · rfl
  · rfl

theorem course_pinComments (texts : List Text) (d : Drawing) (position : Point) :
    (d.pinComments texts position).course position = d.course position := by
  unfold pinComments
  rw [course_onCurrent, course_ensurePolygon]
  exact fun _ => rfl

theorem course_place (texts : List Text) (d : Drawing) (position : Point) :
    (d.place texts).course position = d.course position := by
  unfold place
  split
  · rfl
  · exact course_addComments texts d position

theorem course_placeBefore (texts : List Text) (kind : Kind) (d : Drawing) (position : Point) :
    (d.placeBefore texts kind position).course position = d.course position := by
  unfold placeBefore
  split
  · rfl
  · split
    · exact course_pinComments texts d position
    · exact course_addComments texts d position

/-! ### What actions do -/

theorem course_addSegment (d : Drawing) (start stop : Point) (line : Int) (penDown : Bool)
    (group : Option Int) (position : Point) :
    (d.addSegment start stop line penDown group).course position =
      (d.course position).onLog (·.addSegment start stop line penDown group) := rfl

/-- The open polygon goes on along the trail. -/
theorem exists_ensurePolygon (d : Drawing) (position : Point) :
    ∃ q, (d.ensurePolygon position).current = some q ∧ q.points = d.trail position := by
  unfold ensurePolygon
  split
  · rename_i hc
    exact ⟨_, rfl, (trail_of_none hc position).symm⟩
  · rename_i q hc
    split
    · rename_i he
      refine ⟨_, rfl, ?_⟩
      rw [trail_of_some hc, if_pos he, Polygon.addPoint, Array.isEmpty_iff.mp he]
      rfl
    · rename_i he
      exact ⟨q, hc, by rw [trail_of_some hc, if_neg he]⟩

theorem course_addPoint (d : Drawing) (p position other : Point) :
    (d.addPoint p position).course other = (d.course position).extend p := by
  obtain ⟨q, hq, hpoints⟩ := d.exists_ensurePolygon position
  have hcourse := course_ensurePolygon d position
  have htrail : (d.addPoint p position).trail other = (d.trail position).push p := by
    simp [trail, addPoint, onCurrent, hq, Polygon.addPoint, hpoints]
  have hlog : (d.addPoint p position).log = d.log := congrArg Course.log hcourse
  have houtlines : (d.addPoint p position).outlines = d.outlines := congrArg Course.outlines hcourse
  simp only [course, hlog, houtlines, htrail, Course.extend, Course.withTrail]

/-- A polygon that is given points goes on from there. -/
theorem course_setPoints {points : Array Point} (hp : points ≠ #[]) (d : Drawing)
    (position : Point) :
    (d.ensureTarget.onCurrent fun polygon => { polygon with points := points }).course position =
      (d.course position).withTrail points := by
  obtain ⟨q, hq⟩ := Option.ne_none_iff_exists'.mp d.current_ensureTarget
  rw [← course_ensureTarget d position]
  simp [course, Course.withTrail, onCurrent, trail, log, outlines, hq, hp]

theorem course_finishPolygon (d : Drawing) (commentOnly : Bool) (circle : Option Circle)
    (position other : Point) :
    (d.finishPolygon commentOnly circle).course other = (d.course position).close circle other := by
  unfold finishPolygon
  split
  · rename_i hc
    simp [course, Course.close, trail_of_none hc]
  · rename_i p hc
    -- A seed leaves no outline, whether it is finished as a polygon or as a comment.
    by_cases hs : p.isSeed = true
    · have htrail := size_trail_of_isSeed hc hs position
      have hsize : ¬ 2 ≤ p.points.size := by
        simp only [Polygon.isSeed, decide_eq_true_eq] at hs
        omega
      simp [course, Course.close, htrail, log, outlines, hsize, trail_of_none]
    · have hs : p.isSeed = false := by simpa using hs
      have hsize : 2 ≤ p.points.size := by
        simp only [Polygon.isSeed, decide_eq_false_iff_not] at hs
        omega
      simp [course, Course.close, trail_of_traced hc hs, log, outlines, hsize, trail_of_none]

end Drawing

namespace Machine

theorem course_addArcSegments (line : Int) (penDown : Bool) (group : Int) (vertices : List Point)
    (d : Drawing) (position : Point) :
    (addArcSegments line penDown group vertices d).course position =
      (d.course position).onLog (addArcSegments line penDown group vertices) := by
  induction vertices generalizing d with
  | nil => rfl
  | cons p rest ih =>
    cases rest with
    | nil => rfl
    | cons q rest =>
      rw [addArcSegments, ih, Drawing.course_addSegment]
      rfl

end Machine

/-! ## Canvases -/

namespace Canvas

variable (c : Canvas) (line : Int) (position : Point)

theorem course_flushUpTo : (c.flushUpTo line).drawing.course position = c.drawing.course position :=
  Drawing.course_place _ _ _

theorem course_beforeCommand (kind : Kind) (penDown : Bool) :
    (c.beforeCommand kind line penDown position).drawing.course position =
      c.drawing.course position := by
  unfold beforeCommand
  split
  · rfl
  · exact Drawing.course_placeBefore _ kind _ position

/-- The end of a run ends the trail, whether the open polygon is finished or dropped. -/
theorem course_finish :
    c.finish.drawing.course position = (c.drawing.course position).close none position := by
  obtain ⟨p, hp, hseed, -, -, -, hfinish⟩ | ⟨untraced, -, -, hfinish⟩ := c.finish_cases
  · have htrail := Drawing.size_trail_of_isSeed hp hseed position
    rw [hfinish]
    simp [Drawing.course, Course.close, htrail, onDrawing, Drawing.log, Drawing.outlines,
      Drawing.trail_of_none]
  · rw [hfinish]
    show (c.flushAll.drawing.finishPolygon untraced none).course position = _
    rw [Drawing.course_finishPolygon _ _ _ position]
    exact congrArg (Course.close · none position) (Drawing.course_place _ _ _)

end Canvas

namespace Course

/-- What an arc does to a course: a trail that has got anywhere ends, and the vertices make up an
outline of their own. -/
def arc (c : Course) (points : Array Point) (circle : Option Circle) (position : Point) : Course :=
  ((if 2 ≤ c.trail.size then c.close none position else c).withTrail points).close circle position

end Course

namespace Machine

theorem course_closeBeforeArc (c : Canvas) (line : Int) (position : Point) :
    (closeBeforeArc c line).drawing.course position =
      if 2 ≤ (c.drawing.course position).trail.size then (c.drawing.course position).close none position
      else c.drawing.course position := by
  unfold closeBeforeArc
  cases hc : c.drawing.current with
  | none =>
    have htrail : (c.drawing.course position).trail.size = 1 :=
      congrArg Array.size (Drawing.trail_of_none hc position)
    simp [htrail]
  | some polygon =>
    by_cases hs : polygon.isSeed = true
    · have htrail : (c.drawing.course position).trail.size = 1 :=
        Drawing.size_trail_of_isSeed hc hs position
      simp [htrail, hs]
    · have hs : polygon.isSeed = false := by simpa using hs
      have htrail : 2 ≤ (c.drawing.course position).trail.size := by
        have hsize := hs
        simp only [Polygon.isSeed, decide_eq_false_iff_not] at hsize
        show 2 ≤ (c.drawing.trail position).size
        rw [Drawing.trail_of_traced hc hs]
        omega
      simp only [hs, htrail, if_true, Bool.false_eq_true, if_false]
      show ((c.flushUpTo (line - 1)).drawing.finishPolygon false none).course position = _
      rw [Drawing.course_finishPolygon _ _ _ position, Canvas.course_flushUpTo]

theorem course_arcPolygon (c : Canvas) (line : Int) {points : Array Point} (hp : points ≠ #[])
    (circle : Option Circle) (position : Point) :
    (arcPolygon c line points circle).drawing.course position =
      (c.drawing.course position).arc points circle position := by
  unfold arcPolygon Course.arc
  rw [← course_closeBeforeArc c line position]
  generalize closeBeforeArc c line = c₁
  show ((Canvas.flushUpTo (c₁.onDrawing _) line).drawing.finishPolygon false circle).course position
    = _
  rw [Drawing.course_finishPolygon _ _ _ position, Canvas.course_flushUpTo]
  exact congrArg (Course.close · circle position) (Drawing.course_setPoints hp c₁.drawing position)

/-! ## Actions -/

/-- The course of the drawing, seen from the turtle. -/
def course (m : Machine) : Course := m.drawing.course m.turtle.position

variable (m : Machine) (line : Int)

theorem drawing_lineTo (p : Point) :
    (m.lineTo p line).drawing =
      let logged := m.drawing.addSegment m.turtle.position p line m.turtle.penDown none
      if m.turtle.penDown then logged.addPoint p m.turtle.position else logged := rfl

theorem course_lineTo (hclosed : m.PenUpClosed) (p : Point) :
    (m.lineTo p line).course =
      let logged := m.course.onLog
        (·.addSegment m.turtle.position p line m.turtle.penDown none)
      if m.turtle.penDown then logged.extend p else logged.withTrail #[p] := by
  rw [course, drawing_lineTo]
  cases hd : m.turtle.penDown with
  | true =>
    simp only [if_true]
    rw [Drawing.course_addPoint, Drawing.course_addSegment]
    rfl
  | false =>
    -- The turtle moves away from the start of the trail, which follows it.
    simp only [Bool.false_eq_true, if_false]
    rw [Drawing.course_addSegment, Drawing.course_of_none (hclosed hd) m.turtle.position]
    rfl

theorem course_penUp :
    (m.penUp line).course =
      if m.turtle.penDown then m.course.close none m.turtle.position else m.course := by
  unfold penUp
  split
  · show ((m.canvas.flushUpTo line).drawing.finishPolygon false none).course m.turtle.position = _
    rw [Drawing.course_finishPolygon _ _ _ m.turtle.position, Canvas.course_flushUpTo]
    rfl
  · rfl

theorem course_penDown : (m.penDown line).course = m.course := by
  unfold penDown
  split
  · rfl
  · show ((m.canvas.flushUpTo line).drawing.ensurePolygon m.turtle.position).course
      m.turtle.position = _
    rw [Drawing.course_ensurePolygon, Canvas.course_flushUpTo]
    rfl

theorem course_placeNote (text : Text) :
    (m.placeNote text line).course =
      if m.turtle.penDown then m.course else m.course.close none m.turtle.position := by
  unfold placeNote
  split
  · exact Drawing.course_pinComments [text] m.drawing m.turtle.position
  · show (Drawing.finishPolygon (Drawing.ensurePolygon (Drawing.onCurrent _ _) m.turtle.position)
      true none).course m.turtle.position = _
    rw [Drawing.course_finishPolygon _ _ _ m.turtle.position, Drawing.course_ensurePolygon,
      Drawing.course_onCurrent (by exact fun _ => rfl), Drawing.course_ensureTarget,
      Canvas.course_flushUpTo]
    rfl

theorem extract_ne_empty {vertices : Array Point} (hv : 2 ≤ vertices.size) :
    vertices.extract 1 vertices.size ≠ #[] := by
  intro he
  have hsize := congrArg Array.size he
  simp at hsize
  omega

theorem course_traceArc {vertices : Array Point} (hv : 2 ≤ vertices.size) (angle radius : Float) :
    (m.traceArc vertices angle radius line).course =
      let logged := m.course.onLog (addArcSegments line m.turtle.penDown (m.turtle.arcGroups + 1 : Nat)
        vertices.toList)
      let circle : Option Circle :=
        if angle.abs == 360 then some ⟨m.turtle.position, radius, m.turtle.resolution⟩ else none
      if m.turtle.penDown then
        logged.arc (vertices.extract 1 vertices.size) circle m.turtle.position
      else logged := by
  cases hd : m.turtle.penDown with
  | true =>
    simp only [traceArc, Turtle.openArcGroup, course, drawing, hd, if_true]
    rw [course_arcPolygon _ _ (extract_ne_empty hv)]
    exact congrArg (Course.arc · _ _ _) (course_addArcSegments ..)
  | false =>
    simp only [traceArc, Turtle.openArcGroup, course, drawing, hd, Bool.false_eq_true, if_false]
    exact course_addArcSegments ..

/-! ## Two runs -/

/-- The states of two runs that differ in their comments alone. -/
structure SameCourse (m m' : Machine) : Prop where
  turtle : m.turtle = m'.turtle
  bindings : m.bindings = m'.bindings
  steps : m.steps = m'.steps
  course : m.course = m'.course
  closed : m.PenUpClosed
  closed' : m'.PenUpClosed

namespace SameCourse

variable {m m' : Machine} {line : Int}

theorem penUp (h : m.SameCourse m') : (m.penUp line).SameCourse (m'.penUp line) := by
  obtain ⟨ht, hb, hs⟩ := m.frame_penUp line
  obtain ⟨ht', hb', hs'⟩ := m'.frame_penUp line
  refine ⟨?_, ?_, ?_, ?_, h.closed.penUp, h.closed'.penUp⟩
  · rw [ht, ht', h.turtle]
  · rw [hb, hb', h.bindings]
  · rw [hs, hs', h.steps]
  · rw [course_penUp, course_penUp, h.turtle, h.course]

theorem penDown (h : m.SameCourse m') : (m.penDown line).SameCourse (m'.penDown line) := by
  obtain ⟨ht, hb, hs⟩ := m.frame_penDown line
  obtain ⟨ht', hb', hs'⟩ := m'.frame_penDown line
  refine ⟨?_, ?_, ?_, ?_, h.closed.penDown, h.closed'.penDown⟩
  · rw [ht, ht', h.turtle]
  · rw [hb, hb', h.bindings]
  · rw [hs, hs', h.steps]
  · rw [course_penDown, course_penDown, h.course]

theorem placeNote (h : m.SameCourse m') (text : Text) :
    (m.placeNote text line).SameCourse (m'.placeNote text line) := by
  obtain ⟨ht, hb, hs⟩ := m.frame_placeNote line text
  obtain ⟨ht', hb', hs'⟩ := m'.frame_placeNote line text
  refine ⟨?_, ?_, ?_, ?_, PenUpClosed.placeNote text, PenUpClosed.placeNote text⟩
  · rw [ht, ht', h.turtle]
  · rw [hb, hb', h.bindings]
  · rw [hs, hs', h.steps]
  · rw [course_placeNote, course_placeNote, h.turtle, h.course]

theorem lineTo (h : m.SameCourse m') (p : Point) : (m.lineTo p line).SameCourse (m'.lineTo p line) := by
  refine ⟨congrArg (·.moveTo p) h.turtle, h.bindings, h.steps, ?_, h.closed.lineTo p,
    h.closed'.lineTo p⟩
  rw [course_lineTo _ _ h.closed, course_lineTo _ _ h.closed', h.turtle, h.course]

theorem traceArc (h : m.SameCourse m') {vertices : Array Point} (hv : 2 ≤ vertices.size)
    (angle radius : Float) :
    (m.traceArc vertices angle radius line).SameCourse
      (m'.traceArc vertices angle radius line) := by
  refine ⟨congrArg Turtle.openArcGroup h.turtle, h.bindings, h.steps, ?_, h.closed.traceArc _ _ _,
    h.closed'.traceArc _ _ _⟩
  rw [course_traceArc _ _ hv, course_traceArc _ _ hv, h.turtle, h.course]

theorem steer (h : m.SameCourse m') (f : Turtle → Turtle)
    (position : ∀ t, (f t).position = t.position) (pen : ∀ t, (f t).penDown = t.penDown) :
    (m.onTurtle f).SameCourse (m'.onTurtle f) := by
  have hcourse : ∀ n : Machine, (n.onTurtle f).course = n.course := fun n =>
    congrArg n.drawing.course (position n.turtle)
  refine ⟨congrArg f h.turtle, h.bindings, h.steps, ?_, ?_, ?_⟩
  · rw [hcourse, hcourse, h.course]
  · exact fun hup => h.closed ((pen m.turtle).symm.trans hup)
  · exact fun hup => h.closed' ((pen m'.turtle).symm.trans hup)

theorem respects : Respects SameCourse where
  turtle h := h.turtle
  bindings h := h.bindings
  record h _ := ⟨h.turtle, h.bindings, h.steps, h.course, h.closed, h.closed'⟩
  bind h name value :=
    ⟨h.turtle, congrArg (·.set name value) h.bindings, h.steps, h.course, h.closed, h.closed'⟩
  steer := steer
  lineTo h p _ := h.lineTo p
  penUp h _ := h.penUp
  penDown h _ := h.penDown
  traceArc h _ hv angle radius _ := h.traceArc hv angle radius
  mark h p label :=
    ⟨h.turtle, h.bindings, h.steps, congrArg (·.onLog (·.addMarker p label)) h.course, h.closed,
      h.closed'⟩
  placeNote h text _ := h.placeNote text

/-- Starting a command places comments, each run its own, and does the same otherwise. -/
theorem startCommand (h : m.SameCourse m') (limits : Limits) (command : Command) :
    Step.Agree (fun _ => false) (fun _ => false) SameCourse (startCommand limits command m)
      (startCommand limits command m') := by
  have hbegin : (m.begin command.line).SameCourse (m'.begin command.line) :=
    ⟨h.turtle, h.bindings, congrArg (· + 1) h.steps, h.course, h.closed, h.closed'⟩
  have hready : (Visit.ready ⟨command, m⟩).SameCourse (Visit.ready ⟨command, m'⟩) := by
    refine ⟨h.turtle, h.bindings, congrArg (· + 1) h.steps, ?_, Visit.penUpClosed_ready h.closed,
      Visit.penUpClosed_ready h.closed'⟩
    have hcourse : ∀ n : Machine, (Visit.ready ⟨command, n⟩).course = n.course := fun n =>
      Canvas.course_beforeCommand n.canvas command.line n.turtle.position command.kind _
    rw [hcourse, hcourse, h.course]
  by_cases hstop : limits.steps < (m.begin command.line).steps
  · have hstop' : limits.steps < (m'.begin command.line).steps := hbegin.steps ▸ hstop
    rw [startCommand_of_stop hstop, startCommand_of_stop hstop']
    exact .failed _ hbegin
  · have hstop' : ¬ limits.steps < (m'.begin command.line).steps := hbegin.steps ▸ hstop
    rw [startCommand_of_go hstop, startCommand_of_go hstop']
    exact respects.act hready command.action command.line

theorem runCommands (h : m.SameCourse m') (limits : Limits) (commands : List Command) :
    Outcome.Agree (fun _ => false) (fun _ => false) SameCourse (runCommands limits commands m)
      (runCommands limits commands m') :=
  agree_runCommands_marked (fun _ => false) (R := fun _ => SameCourse) (k := 0)
    (fun command _ _ _ hm => hm.startCommand limits command)
    (fun event _ _ _ hm => respects.record hm event) commands h

end SameCourse

theorem sameCourse_start (resolution : Int) (comments others : List Comment) :
    (start resolution comments).SameCourse (start resolution others) :=
  ⟨rfl, rfl, rfl, rfl, penUpClosed_start _ _, penUpClosed_start _ _⟩

/-! ## The end of a run -/

/-- Two states have done the same work, whatever comments they carry: turtle, bindings and number of
started commands are the same, and so are the segments, the markers, and points and circles of the
finished polygons that have at least two points. -/
structure SameWork (m m' : Machine) : Prop where
  turtle : m.turtle = m'.turtle
  bindings : m.bindings = m'.bindings
  steps : m.steps = m'.steps
  segments : m.drawing.segments = m'.drawing.segments
  markers : m.drawing.markers = m'.drawing.markers
  outlines : m.drawing.outlines = m'.drawing.outlines

theorem SameCourse.sameWork {m m' : Machine} (h : m.SameCourse m') : m.SameWork m' where
  turtle := h.turtle
  bindings := h.bindings
  steps := h.steps
  segments := congrArg (·.log.segments) h.course
  markers := congrArg (·.log.markers) h.course
  outlines := congrArg (·.outlines) h.course

theorem SameCourse.finish {m m' : Machine} (h : m.SameCourse m') : m.finish.SameWork m'.finish := by
  have hcourse : m.finish.course = m'.finish.course := by
    have hfinish : ∀ n : Machine, n.finish.course = n.course.close none n.turtle.position :=
      fun n => Canvas.course_finish n.canvas n.turtle.position
    rw [hfinish, hfinish, h.course, h.turtle]
  exact ⟨h.turtle, h.bindings, h.steps, congrArg (·.log.segments) hcourse,
    congrArg (·.log.markers) hcourse, congrArg (·.outlines) hcourse⟩

end Machine

/-- Whatever comments are placed, the same commands do the same work: two runs that differ in their
comments alone fail in the same way and on the same line, or both come to their end. -/
theorem execute_agree_of_comments (limits : Limits) (resolution : Int) (commands : List Command)
    (comments others : List Comment) :
    Outcome.Agree (fun _ => false) (fun _ => false) Machine.SameWork
      (execute limits resolution commands comments) (execute limits resolution commands others) := by
  have hrun := (Machine.sameCourse_start resolution comments others).runCommands limits commands
  unfold execute
  generalize runCommands limits commands (.start resolution comments) = o at hrun
  generalize runCommands limits commands (.start resolution others) = o' at hrun
  cases hrun with
  | done h => exact .done h.finish
  | failed failure h => exact .failed failure h.sameWork
  | left h => cases h
  | right h => cases h

end TurtleTrace
