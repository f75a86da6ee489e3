import TurtleTrace.Proofs.Machine.Journal

/-!
# The pen and the open polygon

A polygon is open only while the pen is down. Lifting the pen finishes it, and what is written with
the pen up is finished at once.
-/

namespace TurtleTrace

set_option autoImplicit false

/-! ## What leaves the open polygon alone -/

@[simp] theorem Drawing.current_addSegment (d : Drawing) (start stop : Point) (line : Int)
    (penDown : Bool) (group : Option Int) :
    (d.addSegment start stop line penDown group).current = d.current := rfl

@[simp] theorem Drawing.polygons_addSegment (d : Drawing) (start stop : Point) (line : Int)
    (penDown : Bool) (group : Option Int) :
    (d.addSegment start stop line penDown group).polygons = d.polygons := rfl

@[simp] theorem Drawing.current_finishPolygon (d : Drawing) (commentOnly : Bool)
    (circle : Option Circle) : (d.finishPolygon commentOnly circle).current = none := by
  unfold finishPolygon
  split
  · assumption
  · rfl

namespace Machine

/-- What logging one segment leaves alone, logging the segments of an arc leaves alone. -/
theorem addArcSegments_frame {β : Type} {line : Int} {penDown : Bool} {group : Int}
    (view : Drawing → β)
    (h : ∀ d p q, view (d.addSegment p q line penDown (some group)) = view d)
    (vertices : List Point) (d : Drawing) :
    view (addArcSegments line penDown group vertices d) = view d := by
  induction vertices generalizing d with
  | nil => rfl
  | cons p rest ih =>
    cases rest with
    | nil => rfl
    | cons q rest => rw [addArcSegments, ih, h]

@[simp] theorem current_addArcSegments (line : Int) (penDown : Bool) (group : Int)
    (vertices : List Point) (d : Drawing) :
    (addArcSegments line penDown group vertices d).current = d.current :=
  addArcSegments_frame (·.current) (fun _ _ _ => rfl) vertices d

@[simp] theorem polygons_addArcSegments (line : Int) (penDown : Bool) (group : Int)
    (vertices : List Point) (d : Drawing) :
    (addArcSegments line penDown group vertices d).polygons = d.polygons :=
  addArcSegments_frame (·.polygons) (fun _ _ _ => rfl) vertices d

/-! ## The invariant -/

/-- With the pen up no polygon is open. -/
def PenUpClosed (m : Machine) : Prop := m.turtle.penDown = false → m.drawing.current = none

theorem penUpClosed_start (resolution : Int) (comments : List Comment) :
    (start resolution comments).PenUpClosed := nofun

variable {m m' : Machine} {line : Int}

theorem PenUpClosed.lineTo (h : m.PenUpClosed) (p : Point) : (m.lineTo p line).PenUpClosed := by
  intro hup
  have hm : m.turtle.penDown = false := hup
  simpa [Machine.lineTo, drawing, Canvas.onDrawing, hm] using h hm

theorem PenUpClosed.placeNote (text : Text) : (m.placeNote text line).PenUpClosed := by
  intro hup
  unfold Machine.placeNote at hup ⊢
  split
  · rename_i hd
    simp only [hd, if_true, onCanvas] at hup
    cases hup
  · simp [drawing, onCanvas, Canvas.onDrawing]

theorem PenUpClosed.penUp (h : m.PenUpClosed) : (m.penUp line).PenUpClosed := by
  unfold Machine.penUp
  split
  · exact fun _ => by simp [drawing, Canvas.setCursor, Canvas.onDrawing]
  · exact h

theorem PenUpClosed.penDown (h : m.PenUpClosed) : (m.penDown line).PenUpClosed := by
  unfold Machine.penDown
  split
  · exact h
  · exact fun hup => by cases hup

theorem PenUpClosed.traceArc (h : m.PenUpClosed) (vertices : Array Point) (angle radius : Float) :
    (m.traceArc vertices angle radius line).PenUpClosed := by
  intro hup
  have hm : m.turtle.penDown = false := hup
  simpa [Machine.traceArc, Turtle.openArcGroup, drawing, Canvas.onDrawing, hm] using h hm

theorem PenUpClosed.change {action : Action} (h : m.PenUpClosed) (hc : m.Change line action m') :
    m'.PenUpClosed := by
  cases hc with
  | skip => exact h
  | bind => exact h
  | steer _ t _ pen _ => exact fun hup => h (pen ▸ hup)
  | move _ p => exact h.lineTo p
  | home => exact h.lineTo .origin
  | penUp => exact h.penUp
  | penDown => exact h.penDown
  | flatArc => exact h
  | arc => exact h.traceArc _ _ _
  | note => exact PenUpClosed.placeNote _
  | marker => exact PenUpClosed.placeNote _

end Machine

/-! ## Commands and paths -/

/-- With the pen up a command that starts places no comments. -/
theorem Visit.canvas_ready_of_penUp {v : Visit} (h : v.before.turtle.penDown = false) :
    v.ready.canvas = v.before.canvas := by
  simp [ready, Machine.placeComments, Machine.begin, Canvas.beforeCommand, h]

theorem Visit.penUpClosed_ready {v : Visit} (h : v.before.PenUpClosed) : v.ready.PenUpClosed := by
  intro hup
  rw [Machine.drawing, canvas_ready_of_penUp hup]
  exact h hup

theorem Advance.penUpClosed {limits : Limits} {v : Visit} {m : Machine} (h : Advance limits v m)
    (hv : v.before.PenUpClosed) : m.PenUpClosed := by
  obtain hc | ⟨-, -, trace, rfl⟩ := h.cases
  · exact (Visit.penUpClosed_ready hv).change hc
  · exact Visit.penUpClosed_ready hv

end TurtleTrace
