import Mathlib.Data.List.Basic
import TurtleTrace.Proofs.Comments.Reading
import TurtleTrace.Proofs.Machine.Pen

/-!
# No comment is lost, doubled or moved

A run places comments of the source, which it takes from the queue, and notes, which its commands
write. `placements` lists them in the order of time: for every command that is started, first the
comments above it and then what its action places, and at the end the comments that are left. The
finished drawing read from front to back gives this list. Its comments are those of the source in
stable order by line, and its notes are those of the commands in the journal.
-/

namespace TurtleTrace

set_option autoImplicit false

/-! ## Placements -/

/-- Something that a run puts into the drawing: a comment of the source, or a note. -/
inductive Placement where
  | comment (c : Comment)
  | note (text : Text)
  deriving DecidableEq, Repr

namespace Placement

def text : Placement → Text
  | comment c => c.text
  | note text => text

def comment? : Placement → Option Comment
  | comment c => some c
  | note _ => none

def note? : Placement → Option Text
  | comment _ => none
  | note text => some text

theorem map_text_comment (cs : List Comment) :
    (cs.map comment).map text = cs.map (·.text) := by
  rw [List.map_map]
  rfl

theorem filterMap_comment (cs : List Comment) : (cs.map comment).filterMap comment? = cs := by
  rw [List.filterMap_map]
  exact List.filterMap_some

theorem filterMap_note (cs : List Comment) : (cs.map comment).filterMap note? = [] := by
  rw [List.filterMap_map]
  exact List.filterMap_eq_nil_iff.mpr fun _ _ => rfl

end Placement

/-- The waiting comments up to a line. -/
def CommentQueue.placements (q : CommentQueue) (line : Int) : List Placement :=
  (q.waiting.takeWhile (·.line ≤ line)).map .comment

namespace Machine

/-- Whether an arc has an angle and a radius. -/
def tracesArc (m : Machine) (e f : Expr) : Bool :=
  match e.evaluate m.bindings, f.evaluate m.bindings with
  | .ok angle, .ok radius => !(angle == 0 || radius == 0)
  | _, _ => false

/-- What an action places, in the order of time. Moving the pen and tracing an arc with the pen down
place the comments up to their line; a note that is written with the pen up comes after the comments
above it. -/
def placedBy (m : Machine) (line : Int) : Action → List Placement
  | .penUp => if m.turtle.penDown then m.canvas.queue.placements line else []
  | .penDown => if m.turtle.penDown then [] else m.canvas.queue.placements line
  | .arc e f =>
    if m.turtle.penDown && m.tracesArc e f then m.canvas.queue.placements line else []
  | action =>
    match m.noteOf action with
    | none => []
    | some text =>
      (if m.turtle.penDown then [] else m.canvas.queue.placements (line - 1)) ++ [.note text]

end Machine

namespace Visit

/-- What a command that starts places before its action: with the pen down, the comments above it. -/
def placedAbove (v : Visit) : List Placement :=
  if v.before.turtle.penDown && v.before.canvas.queue.cursor < v.command.line then
    v.before.canvas.queue.placements (v.command.line - 1)
  else []

/-- What a command places, in the order of time. -/
def placed (v : Visit) : List Placement :=
  v.placedAbove ++ v.ready.placedBy v.command.line v.command.action

end Visit

/-- All that a run places, in the order of time: what its commands place one after the other, and then
the comments that are left. -/
def placements (limits : Limits) (resolution : Int) (commands : List Command)
    (comments : List Comment) : List Placement :=
  let start := Machine.start resolution comments
  (journal limits commands start).flatMap Visit.placed ++
    (runCommands limits commands start).machine.canvas.queue.waiting.map .comment

/-! ## Changes of a canvas -/

/-- A change that places a log: its texts come behind all that is read, and its comments were the
first of those waiting. -/
structure Canvas.Places (c : Canvas) (log : List Placement) (c' : Canvas) : Prop where
  appends : c.drawing.Appends (log.map Placement.text) c'.drawing
  takes : c.queue.waiting = log.filterMap Placement.comment? ++ c'.queue.waiting

namespace Canvas

variable {c c' c'' : Canvas} {log rest : List Placement}

theorem Places.trans (h : c.Places log c') (k : c'.Places rest c'') :
    c.Places (log ++ rest) c'' := by
  refine ⟨?_, ?_⟩
  · rw [List.map_append]
    exact h.appends.trans k.appends
  · rw [h.takes, k.takes, List.filterMap_append, List.append_assoc]

theorem Places.thenNone (h : c.Places log c') (k : c'.Places [] c'') : c.Places log c'' := by
  have hk := h.trans k
  rwa [List.append_nil] at hk

theorem places_onDrawing {f : Drawing → Drawing} (h : c.drawing.Appends [] (f c.drawing)) :
    c.Places [] (c.onDrawing f) := ⟨h, rfl⟩

theorem places_setCursor (c : Canvas) (line : Int) : c.Places [] (c.setCursor line) :=
  ⟨Drawing.appends_of_eq rfl rfl, rfl⟩

theorem places_flushUpTo (c : Canvas) (line : Int) :
    c.Places (c.queue.placements line) (c.flushUpTo line) := by
  refine ⟨?_, ?_⟩
  · rw [CommentQueue.placements, Placement.map_text_comment]
    exact Drawing.appends_place c.drawing (c.queue.upTo line)
  · rw [CommentQueue.placements, Placement.filterMap_comment]
    exact List.takeWhile_append_dropWhile.symm

theorem places_flushAll (c : Canvas) : c.Places (c.queue.waiting.map .comment) c.flushAll := by
  refine ⟨?_, ?_⟩
  · rw [Placement.map_text_comment]
    exact Drawing.appends_place c.drawing c.queue.remaining
  · rw [Placement.filterMap_comment]
    exact (List.append_nil _).symm

/-- Comments go before a command if the pen is down and their lines have not been passed yet. -/
theorem beforeCommand_eq (c : Canvas) (kind : Kind) (line : Int) (penDown : Bool)
    (position : Point) :
    c.beforeCommand kind line penDown position =
      if penDown && c.queue.cursor < line then
        { drawing := c.drawing.placeBefore (c.queue.upTo (line - 1)) kind position
          queue := (c.queue.dropUpTo (line - 1)).setCursor line }
      else c := by
  unfold beforeCommand
  by_cases hline : c.queue.cursor < line
  · have hpassed : ¬ line ≤ c.queue.cursor := by omega
    cases penDown <;> simp [hline, hpassed]
  · have hpassed : line ≤ c.queue.cursor := by omega
    simp [hline, hpassed]

theorem places_beforeCommand (c : Canvas) (kind : Kind) (line : Int) (penDown : Bool)
    (position : Point) :
    c.Places (if penDown && c.queue.cursor < line then c.queue.placements (line - 1) else [])
      (c.beforeCommand kind line penDown position) := by
  rw [beforeCommand_eq]
  split
  · refine ⟨?_, ?_⟩
    · rw [CommentQueue.placements, Placement.map_text_comment]
      exact Drawing.appends_placeBefore _ (c.queue.upTo (line - 1)) kind position
    · rw [CommentQueue.placements, Placement.filterMap_comment]
      exact List.takeWhile_append_dropWhile.symm
  · exact ⟨Drawing.appends_of_eq rfl rfl, rfl⟩

/-- Two flushes in a row place what the later one alone would place. -/
theorem placements_append (q : CommentQueue) {low high : Int} (h : low ≤ high) :
    q.placements low ++ (q.dropUpTo low).placements high = q.placements high := by
  simp only [CommentQueue.placements, CommentQueue.dropUpTo, ← List.map_append]
  congr 1
  induction q.waiting with
  | nil => rfl
  | cons c cs ih =>
    by_cases hl : c.line ≤ low
    · have hh : c.line ≤ high := by omega
      simpa [hl, hh] using ih
    · simp [hl]

theorem places_closeBeforeArc (c : Canvas) (line : Int) :
    ∃ log, c.Places log (Machine.closeBeforeArc c line) ∧
      log ++ (Machine.closeBeforeArc c line).queue.placements line = c.queue.placements line ∧
      ∀ p, (Machine.closeBeforeArc c line).drawing.current = some p → p.isSeed = true := by
  unfold Machine.closeBeforeArc
  split
  · rename_i hc
    refine ⟨[], ⟨Drawing.appends_of_eq rfl rfl, rfl⟩, rfl, ?_⟩
    intro p hp
    rw [hc] at hp
    cases hp
  · rename_i polygon hc
    split
    · rename_i hs
      refine ⟨[], ⟨Drawing.appends_of_eq rfl rfl, rfl⟩, rfl, ?_⟩
      intro p hp
      rw [hc] at hp
      cases hp
      exact hs
    · refine ⟨c.queue.placements (line - 1), ?_, ?_, ?_⟩
      · refine ((places_flushUpTo c (line - 1)).thenNone ?_).thenNone (places_setCursor _ line)
        exact places_onDrawing (Drawing.appends_finishPolygon _ false none)
      · exact placements_append c.queue (by omega)
      · intro p hp
        simp only [setCursor, onDrawing, Drawing.current_finishPolygon] at hp
        cases hp

theorem places_arcPolygon (c : Canvas) (line : Int) (points : Array Point)
    (circle : Option Circle) :
    c.Places (c.queue.placements line) (Machine.arcPolygon c line points circle) := by
  obtain ⟨log, hclose, hlog, hseed⟩ := places_closeBeforeArc c line
  unfold Machine.arcPolygon
  generalize Machine.closeBeforeArc c line = c₁ at hclose hlog hseed
  rw [← hlog]
  have hpoints : c₁.Places [] (c₁.onDrawing fun d =>
      d.ensureTarget.onCurrent fun polygon => { polygon with points := points }) := by
    refine places_onDrawing ((Drawing.appends_ensureTarget _).after ?_)
    refine Drawing.appends_onCurrent ?_ (Drawing.current_ensureTarget _)
    intro p hp ho
    have hs : p.isSeed = true := by
      unfold Drawing.ensureTarget at hp
      split at hp
      · cases hp
        rfl
      · exact hseed p hp
    exact ⟨ho.setPoints hs points, (List.append_nil _).symm⟩
  refine (hclose.thenNone hpoints).trans ?_
  refine ((places_flushUpTo _ line).thenNone ?_).thenNone (places_setCursor _ (line + 1))
  exact places_onDrawing (Drawing.appends_finishPolygon _ false circle)

/-- Comments that are placed while no polygon is open are free. -/
theorem pinned_flushUpTo (c : Canvas) (line : Int) (hc : c.drawing.current = none) :
    ∀ p, (c.flushUpTo line).drawing.current = some p → p.pinned = #[] := by
  intro p hp
  simp only [flushUpTo, Drawing.place] at hp
  split at hp
  · rw [hc] at hp
    cases hp
  · simp only [Drawing.addComments, Drawing.ensureTarget, hc, Drawing.onCurrent, Option.map_some,
      Option.some.injEq] at hp
    subst hp
    rfl

/-- A note that is written with the pen up is a polygon of its own, behind the comments above it. -/
theorem places_loneNote (c : Canvas) (line : Int) (text : Text) (position : Point)
    (hc : c.drawing.current = none) :
    c.Places (c.queue.placements (line - 1) ++ [.note text])
      ((c.flushUpTo (line - 1)).onDrawing fun d =>
        ((d.ensureTarget.onCurrent fun polygon =>
          { polygon with free := polygon.free.push text }).ensurePolygon position).finishPolygon
            true none) := by
  have hpinned := pinned_flushUpTo c (line - 1) hc
  refine (places_flushUpTo c (line - 1)).trans ?_
  generalize c.flushUpTo (line - 1) = c₁ at hpinned
  refine ⟨?_, rfl⟩
  refine Drawing.Appends.thenNone ?_ (Drawing.appends_finishPolygon _ true none)
  refine Drawing.Appends.thenNone ?_ (Drawing.appends_ensurePolygon _ position)
  refine (Drawing.appends_ensureTarget _).after ?_
  refine Drawing.appends_onCurrent ?_ (Drawing.current_ensureTarget _)
  intro p hp ho
  have hn : p.pinned = #[] := by
    unfold Drawing.ensureTarget at hp
    split at hp
    · cases hp
      rfl
    · exact hpinned p hp
  have hfree : { p with free := p.free.push text }.Ordered :=
    Polygon.ordered_of_pinned_eq_empty hn
  refine ⟨hfree, ?_⟩
  rw [hfree.reading_eq, ho.reading_eq]
  simp [hn, Placement.text]

theorem places_finish (c : Canvas) : c.Places (c.queue.waiting.map .comment) c.finish := by
  obtain ⟨p, hc, -, hfree, hpinned, hq, hfinish⟩ | ⟨untraced, -, -, hfinish⟩ := c.finish_cases
  · rw [hfinish, hq]
    refine ⟨?_, by simp [onDrawing, hq]⟩
    intro ho
    have hr : p.reading = [] := by
      rw [(ho p hc).reading_eq, hfree, hpinned]
      rfl
    refine ⟨fun _ h => (by cases h), ?_⟩
    simp [Drawing.reading, onDrawing, hc, hr]
  · rw [hfinish]
    refine (places_flushAll c).thenNone (places_onDrawing ?_)
    exact Drawing.appends_finishPolygon _ untraced none

theorem current_finish (c : Canvas) : c.finish.drawing.current = none := by
  obtain ⟨p, -, -, -, -, -, hfinish⟩ | ⟨untraced, -, -, hfinish⟩ := c.finish_cases
  · rw [hfinish]
    rfl
  · rw [hfinish]
    exact Drawing.current_finishPolygon _ untraced none

theorem waiting_finish (c : Canvas) : c.finish.queue.waiting = [] := by
  obtain ⟨p, -, -, -, -, hq, hfinish⟩ | ⟨untraced, -, -, hfinish⟩ := c.finish_cases
  · rw [hfinish]
    exact hq
  · rw [hfinish]
    rfl

end Canvas

/-! ## One command -/

namespace Machine

variable {m m' : Machine} {line : Int} {action : Action}

theorem placedBy_of_isSilent (h : action.isSilent = true) : m.placedBy line action = [] := by
  cases action with
  | penUp | penDown | arc _ _ | print _ | notePosition _ | marker _ _ => cases h
  | _ => rfl

theorem placedBy_of_noteOf {text : Text} (h : m.noteOf action = some text) :
    m.placedBy line action =
      (if m.turtle.penDown then [] else m.canvas.queue.placements (line - 1)) ++ [.note text] := by
  cases action with
  | print _ | notePosition _ => simp only [placedBy, h]
  | marker label place => cases place <;> simp only [placedBy, h]
  | _ => cases h

theorem writesNote_of_noteOf {text : Text} (h : m.noteOf action = some text) :
    action.kind.writesNote = true := by
  cases action with
  | print _ | notePosition _ | marker _ _ => rfl
  | _ => cases h

theorem filterMap_note_placedBy (m : Machine) (line : Int) (action : Action) :
    (m.placedBy line action).filterMap Placement.note? = (m.noteOf action).toList := by
  have hq : ∀ line, (m.canvas.queue.placements line).filterMap Placement.note? = [] :=
    fun line => Placement.filterMap_note _
  cases hn : m.noteOf action with
  | some text =>
    rw [placedBy_of_noteOf hn, List.filterMap_append]
    split
    · rfl
    · rw [hq]
      rfl
  | none =>
    cases action with
    | penUp | penDown | arc _ _ =>
      simp only [placedBy, apply_ite (List.filterMap Placement.note?), hq, List.filterMap_nil,
        ite_self, Option.toList_none]
    | print _ | notePosition _ => simp only [placedBy, hn]; rfl
    | marker label place => cases place <;> simp only [placedBy, hn] <;> rfl
    | _ => rfl

theorem places_placeNote (hpen : m.PenUpClosed) (text : Text) (line : Int) :
    m.canvas.Places
      ((if m.turtle.penDown then [] else m.canvas.queue.placements (line - 1)) ++ [.note text])
      (m.placeNote text line).canvas := by
  unfold placeNote
  by_cases hd : m.turtle.penDown = true
  · simp only [hd, if_true, onCanvas]
    exact ⟨Drawing.appends_pinComments _ [text] _, rfl⟩
  · simp only [hd]
    exact Canvas.places_loneNote _ line text _ (hpen (by simpa using hd))

theorem places_lineTo (m : Machine) (p : Point) (line : Int) :
    m.canvas.Places [] (m.lineTo p line).canvas := by
  simp only [lineTo]
  refine Canvas.places_onDrawing ?_
  have hsegment : m.canvas.drawing.Appends []
      (m.canvas.drawing.addSegment m.turtle.position p line m.turtle.penDown none) :=
    Drawing.appends_of_eq rfl rfl
  split
  · exact hsegment.after (Drawing.appends_addPoint _ p _)
  · exact hsegment

theorem places_penUp (m : Machine) (line : Int) :
    m.canvas.Places (m.placedBy line .penUp) (m.penUp line).canvas := by
  by_cases hd : m.turtle.penDown = true
  · simp only [penUp, placedBy, hd, if_true]
    refine ((Canvas.places_flushUpTo _ line).thenNone ?_).thenNone (Canvas.places_setCursor _ _)
    exact Canvas.places_onDrawing (Drawing.appends_finishPolygon _ false none)
  · simp only [penUp, placedBy, hd, Bool.false_eq_true, if_false]
    exact ⟨Drawing.appends_of_eq rfl rfl, rfl⟩

theorem places_penDown (m : Machine) (line : Int) :
    m.canvas.Places (m.placedBy line .penDown) (m.penDown line).canvas := by
  by_cases hd : m.turtle.penDown = true
  · simp only [penDown, placedBy, hd, if_true]
    exact ⟨Drawing.appends_of_eq rfl rfl, rfl⟩
  · simp only [penDown, placedBy, hd, Bool.false_eq_true, if_false]
    have hflush := (Canvas.places_flushUpTo m.canvas line).thenNone
      (Canvas.places_setCursor _ (line + 1))
    refine hflush.thenNone ?_
    exact Canvas.places_onDrawing (Drawing.appends_ensurePolygon _ _)

theorem places_traceArc (m : Machine) (vertices : Array Point) (angle radius : Float) (line : Int) :
    m.canvas.Places (if m.turtle.penDown then m.canvas.queue.placements line else [])
      (m.traceArc vertices angle radius line).canvas := by
  have hsegments : m.canvas.Places [] (m.canvas.onDrawing
      (addArcSegments line m.turtle.penDown (m.turtle.arcGroups + 1 : Nat) vertices.toList)) :=
    Canvas.places_onDrawing (Drawing.appends_of_eq (polygons_addArcSegments ..)
      (current_addArcSegments ..))
  by_cases hd : m.turtle.penDown = true
  · simp only [traceArc, Turtle.openArcGroup, hd, if_true] at hsegments ⊢
    exact hsegments.trans (Canvas.places_arcPolygon _ line _ _)
  · simp only [traceArc, Turtle.openArcGroup, hd, Bool.false_eq_true, if_false] at hsegments ⊢
    exact hsegments

/-- An action that is done places exactly what `placedBy` lists. -/
theorem Change.places (h : m.Change line action m') (hpen : m.PenUpClosed) :
    m.canvas.Places (m.placedBy line action) m'.canvas := by
  have hnone : m.canvas.Places [] m.canvas := ⟨Drawing.appends_of_eq rfl rfl, rfl⟩
  cases h with
  | skip silent => rw [placedBy_of_isSilent silent]; exact hnone
  | bind silent => rw [placedBy_of_isSilent silent]; exact hnone
  | steer silent => rw [placedBy_of_isSilent silent]; exact hnone
  | move silent p => rw [placedBy_of_isSilent silent]; exact places_lineTo m p line
  | home => exact places_lineTo m .origin line
  | penUp => exact places_penUp m line
  | penDown => exact places_penDown m line
  | flatArc angleOk radiusOk flat =>
    simp only [placedBy, tracesArc, angleOk, radiusOk, flat, Bool.not_true, Bool.and_false,
      Bool.false_eq_true, if_false]
    exact hnone
  | arc angleOk radiusOk curved verticesOk =>
    simp only [placedBy, tracesArc, angleOk, radiusOk, curved, Bool.not_false, Bool.and_true]
    exact places_traceArc m _ _ _ line
  | note written => rw [placedBy_of_noteOf written]; exact places_placeNote hpen _ line
  | @marker label _ p text written =>
    rw [placedBy_of_noteOf written]
    -- The marker itself places nothing, and the note is placed behind it.
    have hmarked : m.canvas.Places [] (m.canvas.onDrawing (·.addMarker p label)) :=
      Canvas.places_onDrawing (Drawing.appends_of_eq rfl rfl)
    exact hmarked.trans
      (places_placeNote (m := m.onCanvas (·.onDrawing (·.addMarker p label))) hpen text line)

theorem Change.writesNote (h : m.Change line action m') :
    (m.noteOf action).isSome = action.kind.writesNote := by
  cases h with
  | skip silent | bind silent | steer silent | move silent =>
    rw [noteOf_of_isSilent m silent]
    cases action with
    | print _ | notePosition _ | marker _ _ => cases silent
    | _ => rfl
  | home | penUp | penDown | flatArc | arc => rfl
  | note written => rw [written, writesNote_of_noteOf written]; rfl
  | marker written => rw [written]; rfl

end Machine

/-! ## Runs -/

variable {limits : Limits} {m m' : Machine}

theorem Visit.places_ready (v : Visit) : v.before.canvas.Places v.placedAbove v.ready.canvas :=
  Canvas.places_beforeCommand ..

theorem Visit.filterMap_note_placed (v : Visit) :
    v.placed.filterMap Placement.note? = v.note?.toList := by
  have habove : v.placedAbove.filterMap Placement.note? = [] := by
    unfold placedAbove
    split
    · exact Placement.filterMap_note _
    · rfl
  rw [placed, List.filterMap_append, habove, Machine.filterMap_note_placedBy]
  rfl

theorem Advance.places {v : Visit} (h : Advance limits v m') (hpen : v.before.PenUpClosed) :
    v.before.canvas.Places v.placed m'.canvas := by
  refine v.places_ready.trans ?_
  obtain hc | ⟨hs, -, trace, rfl⟩ := h.cases
  · exact hc.places (Visit.penUpClosed_ready hpen)
  · rw [Machine.placedBy_of_isSilent hs]
    exact ⟨Drawing.appends_of_eq rfl rfl, rfl⟩

theorem Advance.writesNote {v : Visit} (h : Advance limits v m') :
    v.note?.isSome = v.command.kind.writesNote := by
  obtain hc | ⟨hs, -⟩ := h.cases
  · exact hc.writesNote
  · rw [Visit.note?, Machine.noteOf_of_isSilent _ hs]
    obtain ⟨⟨action, line⟩, before⟩ := v
    cases action with
    | print _ | notePosition _ | marker _ _ => cases hs
    | _ => rfl

theorem Path.places {visits : List Visit} (h : Path limits m visits m') (hpen : m.PenUpClosed) :
    m.canvas.Places (visits.flatMap Visit.placed) m'.canvas := by
  induction h with
  | nil m => exact ⟨Drawing.appends_of_eq rfl rfl, rfl⟩
  | cons first _ ih => exact (first.places hpen).trans (ih (first.penUpClosed hpen))

theorem Path.writesNote {visits : List Visit} (h : Path limits m visits m') :
    ∀ v ∈ visits, v.note?.isSome = v.command.kind.writesNote := by
  induction h with
  | nil m => exact fun v hv => (by cases hv)
  | cons first _ ih =>
    intro v hv
    obtain rfl | hv := List.mem_cons.mp hv
    · exact first.writesNote
    · exact ih v hv

theorem placements_of_runCommands {resolution : Int} {commands : List Command}
    {comments : List Comment} (h : runCommands limits commands (.start resolution comments) = .done m) :
    placements limits resolution commands comments =
      (journal limits commands (.start resolution comments)).flatMap Visit.placed ++
        m.canvas.queue.waiting.map .comment := by
  simp only [placements, h, Outcome.machine]

theorem places_of_execute {resolution : Int} {commands : List Command} {comments : List Comment}
    (h : execute limits resolution commands comments = .done m) :
    (Machine.start resolution comments).canvas.Places
      (placements limits resolution commands comments) m.canvas := by
  obtain ⟨n, hrun, rfl⟩ := execute_eq_done h
  have hpath := (path_of_runCommands hrun).places (Machine.penUpClosed_start resolution comments)
  rw [placements_of_runCommands hrun]
  exact hpath.trans n.canvas.places_finish

theorem reading_of_execute {resolution : Int} {commands : List Command} {comments : List Comment}
    (h : execute limits resolution commands comments = .done m) :
    m.drawing.polygons.toList.flatMap Polygon.reading =
      (placements limits resolution commands comments).map Placement.text := by
  -- At the start there is a seed without comments, and at the end no polygon is open.
  have hordered : (Machine.start resolution comments).canvas.drawing.Ordered := by
    intro p hp
    cases hp
    exact Polygon.ordered_of_pinned_eq_empty rfl
  have hstart : (Machine.start resolution comments).canvas.drawing.reading = [] := rfl
  have hreading := ((places_of_execute h).appends hordered).2
  obtain ⟨n, -, rfl⟩ := execute_eq_done h
  have hcurrent : n.finish.canvas.drawing.current = none := n.canvas.current_finish
  rw [hstart, List.nil_append, Drawing.reading, hcurrent, Option.toList_none,
    List.append_nil] at hreading
  exact hreading

/-- The finished polygons, read in order, give all placements of the run in the order of time. These
interleave the comments of the source, stably sorted by line, with the notes of the commands in the
journal, and a command writes a note exactly if it is of one of the three kinds that do. -/
theorem reading_eq_placements {limits : Limits} {resolution : Int} {commands : List Command}
    {comments : List Comment} {m : Machine}
    (h : execute limits resolution commands comments = .done m) :
    let log := placements limits resolution commands comments
    let visits := journal limits commands (.start resolution comments)
    m.drawing.polygons.toList.flatMap Polygon.reading = log.map Placement.text ∧
      IsStableSort Comment.line comments (log.filterMap Placement.comment?) ∧
      log.filterMap Placement.note? = visits.filterMap Visit.note? ∧
      ∀ v ∈ visits, v.note?.isSome = v.command.kind.writesNote := by
  intro log visits
  have hreading := reading_of_execute h
  have htakes := (places_of_execute h).takes
  obtain ⟨n, hrun, rfl⟩ := execute_eq_done h
  refine ⟨hreading, ?_, ?_, (path_of_runCommands hrun).writesNote⟩
  · have hwaiting : n.finish.canvas.queue.waiting = [] := n.canvas.waiting_finish
    rw [hwaiting, List.append_nil] at htakes
    rw [← htakes]
    exact isStableSort_sortOn Comment.line comments
  · have hlog : log = visits.flatMap Visit.placed ++ n.canvas.queue.waiting.map .comment :=
      placements_of_runCommands hrun
    rw [hlog, List.filterMap_append, Placement.filterMap_note, List.append_nil,
      List.filterMap_flatMap]
    simp only [Visit.filterMap_note_placed]
    exact (List.filterMap_eq_flatMap_toList _ _).symm

/-- Comments that are given out of order, notes with the pen down and up, and a loop. -/
theorem reading_of_mixed_run :
    ∃ m, execute {} 40
        [⟨.home, 2⟩, ⟨.print [.text "a".toList], 3⟩, ⟨.penUp, 4⟩, ⟨.notePosition none, 6⟩,
          ⟨.penDown, 7⟩, ⟨.repeatBody (.number 2) "PRINT [x]".toList 8, 8⟩]
        [⟨"# five".toList, 5, none⟩, ⟨"# one".toList, 1, none⟩, ⟨"# nine".toList, 9, none⟩] =
          .done m ∧
      m.drawing.polygons.toList.flatMap Polygon.reading =
        ["# one".toList, "// a".toList, "# five".toList, "// Position: x=0, y=0".toList,
          "// x".toList, "// x".toList, "# nine".toList] := by
  refine (Outcome.exists_of_isDone (by decide +kernel)).imp fun m h => ⟨h, ?_⟩
  rw [(reading_eq_placements h).1]
  decide +kernel

end TurtleTrace
