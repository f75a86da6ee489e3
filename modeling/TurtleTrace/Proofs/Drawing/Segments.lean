import TurtleTrace.Proofs.Machine.Journal

/-!
# The lines of the segments

Only moves and arcs log segments, and they log them on the line of their command. Everything else that
a command does to the drawing leaves the log alone.

* `Drawing.Adds`: the log grows by segments of some lines.
-/

namespace TurtleTrace

set_option autoImplicit false

/-! ## What leaves the log alone -/

namespace Drawing

/-- A drawing without its polygons: segments with their index, markers and lengths. -/
def log (d : Drawing) : Drawing := { d with polygons := #[], current := none }

theorem segments_of_log {d d' : Drawing} (h : d'.log = d.log) : d'.segments = d.segments := by
  have hsegments : d'.log.segments = d.log.segments := by rw [h]
  exact hsegments

theorem counter_of_log {d d' : Drawing} (h : d'.log = d.log) : d'.counter = d.counter := by
  have hcounter : d'.log.counter = d.log.counter := by rw [h]
  exact hcounter

@[simp] theorem log_ensurePolygon (d : Drawing) (position : Point) :
    (d.ensurePolygon position).log = d.log := by
  unfold ensurePolygon
  split
  · rfl
  · split <;> rfl

@[simp] theorem log_ensureTarget (d : Drawing) : d.ensureTarget.log = d.log := by
  unfold ensureTarget
  split <;> rfl

@[simp] theorem log_onCurrent (d : Drawing) (f : Polygon → Polygon) :
    (d.onCurrent f).log = d.log := rfl

@[simp] theorem log_finishPolygon (d : Drawing) (commentOnly : Bool) (circle : Option Circle) :
    (d.finishPolygon commentOnly circle).log = d.log := by
  unfold finishPolygon
  split <;> rfl

@[simp] theorem log_addPoint (d : Drawing) (point position : Point) :
    (d.addPoint point position).log = d.log := by
  simp [addPoint]

@[simp] theorem log_addComments (d : Drawing) (texts : List Text) :
    (d.addComments texts).log = d.log := by
  simp [addComments]

@[simp] theorem log_pinComments (d : Drawing) (texts : List Text) (position : Point) :
    (d.pinComments texts position).log = d.log := by
  simp [pinComments]

@[simp] theorem log_place (d : Drawing) (texts : List Text) : (d.place texts).log = d.log := by
  unfold place
  split
  · rfl
  · exact log_addComments d texts

@[simp] theorem log_placeBefore (d : Drawing) (texts : List Text) (kind : Kind)
    (position : Point) : (d.placeBefore texts kind position).log = d.log := by
  unfold placeBefore
  split
  · rfl
  · split
    · exact log_pinComments d texts position
    · exact log_addComments d texts

end Drawing

namespace Canvas

@[simp] theorem log_flushUpTo (c : Canvas) (line : Int) :
    (c.flushUpTo line).drawing.log = c.drawing.log :=
  c.drawing.log_place _

@[simp] theorem log_beforeCommand (c : Canvas) (kind : Kind) (line : Int) (penDown : Bool)
    (position : Point) :
    (c.beforeCommand kind line penDown position).drawing.log = c.drawing.log := by
  unfold beforeCommand
  split
  · rfl
  · exact Drawing.log_placeBefore ..

theorem log_finish (c : Canvas) : c.finish.drawing.log = c.drawing.log := by
  obtain ⟨p, -, -, -, -, -, hfinish⟩ | ⟨untraced, -, -, hfinish⟩ := c.finish_cases
  · rw [hfinish]
    rfl
  · rw [hfinish]
    exact (Drawing.log_finishPolygon _ untraced none).trans (Drawing.log_place _ _)

end Canvas

namespace Machine

theorem log_placeNote (m : Machine) (text : Text) (line : Int) :
    (m.placeNote text line).drawing.log = m.drawing.log := by
  unfold placeNote
  split
  · simp [drawing, onCanvas, Canvas.onDrawing]
  · simp [drawing, onCanvas, Canvas.onDrawing]

theorem log_arcPolygon (c : Canvas) (line : Int) (points : Array Point) (circle : Option Circle) :
    (arcPolygon c line points circle).drawing.log = c.drawing.log := by
  have hclose : (closeBeforeArc c line).drawing.log = c.drawing.log := by
    unfold closeBeforeArc
    split
    · rfl
    · split
      · rfl
      · simp [Canvas.setCursor, Canvas.onDrawing]
  simp [arcPolygon, Canvas.setCursor, Canvas.onDrawing, hclose]

theorem log_penUp (m : Machine) (line : Int) : (m.penUp line).drawing.log = m.drawing.log := by
  unfold penUp
  split
  · simp [drawing, Canvas.setCursor, Canvas.onDrawing]
  · rfl

theorem log_penDown (m : Machine) (line : Int) : (m.penDown line).drawing.log = m.drawing.log := by
  unfold penDown
  split
  · rfl
  · simp [drawing, Canvas.setCursor, Canvas.onDrawing]

/-- A line logs its segment and nothing else. -/
theorem log_lineTo (m : Machine) (p : Point) (line : Int) :
    (m.lineTo p line).drawing.log =
      (m.drawing.addSegment m.turtle.position p line m.turtle.penDown none).log := by
  unfold lineTo
  dsimp only [drawing, Canvas.onDrawing]
  split
  · exact Drawing.log_addPoint ..
  · rfl

/-- An arc logs its segments and nothing else. -/
theorem log_traceArc (m : Machine) (vertices : Array Point) (angle radius : Float) (line : Int) :
    (m.traceArc vertices angle radius line).drawing.log =
      (addArcSegments line m.turtle.penDown (m.turtle.arcGroups + 1 : Nat) vertices.toList
        m.drawing).log := by
  unfold traceArc
  dsimp only [drawing]
  split
  · exact log_arcPolygon ..
  · rfl

end Machine

/-- Placing the comments above a command logs nothing. -/
theorem Visit.log_ready (v : Visit) : v.ready.drawing.log = v.before.drawing.log :=
  Canvas.log_beforeCommand ..

/-! ## What adds to the log -/

/-- The log grows by segments whose lines satisfy a condition. -/
def Drawing.Adds (P : Int → Prop) (d d' : Drawing) : Prop :=
  ∃ added, d'.segments.toList = d.segments.toList ++ added ∧ ∀ s ∈ added, P s.line

namespace Drawing.Adds

variable {P : Int → Prop} {d d' d'' : Drawing} {line : Int}

theorem of_segments (h : d'.segments = d.segments) : Adds P d d' :=
  ⟨[], by rw [h, List.append_nil], nofun⟩

theorem of_log (h : d'.log = d.log) : Adds P d d' := of_segments (segments_of_log h)

theorem trans (h : Adds P d d') (k : Adds P d' d'') : Adds P d d'' := by
  obtain ⟨added, hd, hadded⟩ := h
  obtain ⟨more, hd', hmore⟩ := k
  refine ⟨added ++ more, by rw [hd', hd, List.append_assoc], fun s hs => ?_⟩
  obtain hs | hs := List.mem_append.mp hs
  · exact hadded s hs
  · exact hmore s hs

theorem addSegment (hline : P line) (d : Drawing) (p q : Point) (penDown : Bool)
    (group : Option Int) : Adds P d (d.addSegment p q line penDown group) := by
  refine ⟨[_], Array.toList_push, fun s hs => ?_⟩
  obtain rfl := List.mem_singleton.mp hs
  exact hline

theorem addArcSegments (hline : P line) (penDown : Bool) (group : Int) (vertices : List Point)
    (d : Drawing) : Adds P d (Machine.addArcSegments line penDown group vertices d) := by
  induction vertices generalizing d with
  | nil => exact of_log rfl
  | cons p rest ih =>
    cases rest with
    | nil => exact of_log rfl
    | cons q rest => exact (addSegment hline d p q penDown (some group)).trans (ih _)

end Drawing.Adds

namespace Machine

variable {P : Int → Prop} {m m' : Machine} {line : Int}

theorem adds_lineTo (hline : P line) (m : Machine) (p : Point) :
    Drawing.Adds P m.drawing (m.lineTo p line).drawing :=
  (Drawing.Adds.addSegment hline m.drawing m.turtle.position p m.turtle.penDown none).trans
    (.of_log (m.log_lineTo p line))

/-- What a command logs, it logs on its line. -/
theorem Change.adds {action : Action} (h : m.Change line action m') (hline : P line) :
    Drawing.Adds P m.drawing m'.drawing := by
  cases h with
  | skip | bind | steer | flatArc => exact .of_log rfl
  | move _ p => exact adds_lineTo hline m p
  | home => exact adds_lineTo hline m .origin
  | penUp => exact .of_log (m.log_penUp line)
  | penDown => exact .of_log (m.log_penDown line)
  | @arc e f angle radius vertices =>
    exact (Drawing.Adds.addArcSegments hline m.turtle.penDown (m.turtle.arcGroups + 1 : Nat)
      vertices.toList m.drawing).trans (.of_log (m.log_traceArc vertices angle radius line))
  | note => exact .of_log (log_placeNote ..)
  | @marker label _ p text =>
    have hmarked : Drawing.Adds P m.drawing (m.onCanvas (·.onDrawing (·.addMarker p label))).drawing :=
      .of_segments rfl
    exact hmarked.trans (.of_log (log_placeNote ..))

end Machine

end TurtleTrace
