import Mathlib.Data.List.Forall2
import TurtleTrace.Proofs.Comments.Conservation

/-!
# Comments are attributed by kinds and lines

Which polygon a comment goes to, and which place there, depends on the kinds and the lines of the
commands that run, and not on the values that they compute. A bare drawing is one with all points moved
to the origin and all texts taken out. What a command other than an arc, a loop or a call does to the
bare drawing follows from its kind and its line, and so does what it takes from the queue of comments.

* `Drawing.bare`: what is left of a drawing without coordinates and texts.
* `Machine.SameShape`: the relation between two runs.
* `Machine.sketch`: what a command of a given kind does, up to coordinates and texts.
* `Sheet`: the places of a polygon, each with the comment that it holds.
-/

namespace TurtleTrace

set_option autoImplicit false

/-! ## Bare drawings -/

/-- As many texts, all empty. -/
def blanks (texts : List Text) : List Text := texts.map fun _ => []

namespace Polygon

/-- A polygon with all points moved to the origin and all texts taken out. -/
def bare (p : Polygon) : Polygon :=
  { points := p.points.map fun _ => .origin
    free := p.free.map fun _ => []
    pinned := p.pinned.map fun x => (x.1, [])
    commentOnly := p.commentOnly }

@[simp] theorem isSeed_bare (p : Polygon) : p.bare.isSeed = p.isSeed := by
  simp [bare, isSeed]

@[simp] theorem nextSlot_bare (p : Polygon) : p.bare.nextSlot = p.nextSlot := by
  unfold nextSlot
  rw [isSeed_bare]
  simp [bare]

@[simp] theorem points_isEmpty_bare (p : Polygon) : p.bare.points.isEmpty = p.points.isEmpty := by
  simp [bare, Array.isEmpty]

@[simp] theorem free_isEmpty_bare (p : Polygon) : p.bare.free.isEmpty = p.free.isEmpty := by
  simp [bare, Array.isEmpty]

@[simp] theorem pinned_isEmpty_bare (p : Polygon) : p.bare.pinned.isEmpty = p.pinned.isEmpty := by
  simp [bare, Array.isEmpty]

theorem bare_addPoint (p : Polygon) (point : Point) :
    (p.addPoint point).bare = p.bare.addPoint .origin := by
  simp [bare, addPoint]

theorem bare_pinHere (p : Polygon) (texts : List Text) :
    (p.pinHere texts).bare = p.bare.pinHere (blanks texts) := by
  rw [pinHere, pinHere, nextSlot_bare]
  simp [bare, pin, blanks, ← Array.toList_inj, Function.comp_def]

theorem bare_addComments (p : Polygon) (texts : List Text) :
    (p.addComments texts).bare = p.bare.addComments (blanks texts) := by
  unfold addComments
  rw [isSeed_bare, pinned_isEmpty_bare]
  split
  · simp [bare, blanks, ← Array.toList_inj]
  · exact p.bare_pinHere texts

theorem bare_pushFree (text : Text) (p : Polygon) :
    { p with free := p.free.push text }.bare = { p.bare with free := p.bare.free.push [] } := by
  simp [bare]

end Polygon

namespace Drawing

/-- A drawing of bare polygons without its log. -/
def bare (d : Drawing) : Drawing :=
  { polygons := d.polygons.map Polygon.bare, current := d.current.map Polygon.bare }

theorem bare_onCurrent {f g : Polygon → Polygon} (h : ∀ p, (f p).bare = g p.bare) (d : Drawing) :
    (d.onCurrent f).bare = d.bare.onCurrent g := by
  unfold bare onCurrent
  cases d.current with
  | none => rfl
  | some p => simp [h p]

theorem bare_ensureTarget (d : Drawing) : d.ensureTarget.bare = d.bare.ensureTarget := by
  cases hc : d.current with
  | none =>
    have hbare : d.bare.current = none := by rw [bare, hc]; rfl
    simp only [ensureTarget, hc, hbare]
    simp [bare, Polygon.bare, Polygon.empty]
  | some p =>
    have hbare : d.bare.current = some p.bare := by rw [bare, hc]; rfl
    simp only [ensureTarget, hc, hbare]

theorem bare_ensurePolygon (d : Drawing) (position : Point) :
    (d.ensurePolygon position).bare = d.bare.ensurePolygon .origin := by
  cases hc : d.current with
  | none =>
    have hbare : d.bare.current = none := by rw [bare, hc]; rfl
    simp only [ensurePolygon, hc, hbare]
    simp [bare, Polygon.bare, Polygon.seeded]
  | some p =>
    have hbare : d.bare.current = some p.bare := by rw [bare, hc]; rfl
    simp only [ensurePolygon, hc, hbare, Polygon.points_isEmpty_bare]
    split
    · rw [← p.bare_addPoint position]
      rfl
    · rfl

theorem bare_addPoint (d : Drawing) (point position : Point) :
    (d.addPoint point position).bare = d.bare.addPoint .origin .origin := by
  unfold addPoint
  rw [bare_onCurrent (g := (·.addPoint .origin)) fun p => p.bare_addPoint point, bare_ensurePolygon]

theorem bare_addComments (d : Drawing) (texts : List Text) :
    (d.addComments texts).bare = d.bare.addComments (blanks texts) := by
  unfold addComments
  rw [bare_onCurrent (g := (·.addComments (blanks texts))) fun p => p.bare_addComments texts,
    bare_ensureTarget]

theorem bare_pinComments (d : Drawing) (texts : List Text) (position : Point) :
    (d.pinComments texts position).bare = d.bare.pinComments (blanks texts) .origin := by
  unfold pinComments
  rw [bare_onCurrent (g := (·.pinHere (blanks texts))) fun p => p.bare_pinHere texts,
    bare_ensurePolygon]

theorem bare_finishPolygon (d : Drawing) (commentOnly : Bool) (circle : Option Circle) :
    (d.finishPolygon commentOnly circle).bare = d.bare.finishPolygon commentOnly none := by
  cases hc : d.current with
  | none =>
    have hbare : d.bare.current = none := by rw [bare, hc]; rfl
    simp only [finishPolygon, hc, hbare]
  | some p =>
    have hbare : d.bare.current = some p.bare := by rw [bare, hc]; rfl
    simp only [finishPolygon, hc, hbare, Polygon.points_isEmpty_bare]
    simp [bare, Polygon.bare]

theorem bare_place (d : Drawing) (texts : List Text) :
    (d.place texts).bare = d.bare.place (blanks texts) := by
  unfold place
  rw [blanks, List.isEmpty_map]
  split
  · rfl
  · exact d.bare_addComments texts

theorem bare_placeBefore (d : Drawing) (texts : List Text) (kind : Kind) (position : Point) :
    (d.placeBefore texts kind position).bare = d.bare.placeBefore (blanks texts) kind .origin := by
  unfold placeBefore
  rw [blanks, List.isEmpty_map]
  split
  · rfl
  · split
    · exact d.bare_pinComments texts position
    · exact d.bare_addComments texts

end Drawing

/-! ## Canvases of one shape -/

/-- The same bare drawing, and the same comments to come. -/
structure Canvas.SameShape (c c' : Canvas) : Prop where
  drawing : c.drawing.bare = c'.drawing.bare
  queue : c.queue = c'.queue

namespace Canvas.SameShape

variable {c c' : Canvas}

theorem onDrawing (h : c.SameShape c') {f g : Drawing → Drawing}
    (hfg : ∀ d d' : Drawing, d.bare = d'.bare → (f d).bare = (g d').bare) :
    (c.onDrawing f).SameShape (c'.onDrawing g) :=
  ⟨hfg _ _ h.drawing, h.queue⟩

theorem setCursor (h : c.SameShape c') (line : Int) :
    (c.setCursor line).SameShape (c'.setCursor line) :=
  ⟨h.drawing, congrArg (·.setCursor line) h.queue⟩

theorem flushUpTo (h : c.SameShape c') (line : Int) :
    (c.flushUpTo line).SameShape (c'.flushUpTo line) := by
  refine ⟨?_, congrArg (·.dropUpTo line) h.queue⟩
  unfold Canvas.flushUpTo
  rw [Drawing.bare_place, Drawing.bare_place, h.drawing, h.queue]

theorem flushAll (h : c.SameShape c') : c.flushAll.SameShape c'.flushAll := by
  refine ⟨?_, congrArg CommentQueue.dropAll h.queue⟩
  unfold Canvas.flushAll
  rw [Drawing.bare_place, Drawing.bare_place, h.drawing, h.queue]

theorem finishPolygon (h : c.SameShape c') (commentOnly : Bool) :
    (c.onDrawing (·.finishPolygon commentOnly none)).SameShape
      (c'.onDrawing (·.finishPolygon commentOnly none)) :=
  h.onDrawing fun d d' hd => by rw [Drawing.bare_finishPolygon, Drawing.bare_finishPolygon, hd]

theorem ensurePolygon (h : c.SameShape c') (position position' : Point) :
    (c.onDrawing (·.ensurePolygon position)).SameShape (c'.onDrawing (·.ensurePolygon position')) :=
  h.onDrawing fun d d' hd => by rw [Drawing.bare_ensurePolygon, Drawing.bare_ensurePolygon, hd]

theorem beforeCommand (h : c.SameShape c') (kind : Kind) (line : Int) (penDown : Bool)
    (position position' : Point) :
    (c.beforeCommand kind line penDown position).SameShape
      (c'.beforeCommand kind line penDown position') := by
  unfold Canvas.beforeCommand
  rw [h.queue]
  split
  · exact h
  · refine ⟨?_, rfl⟩
    rw [Drawing.bare_placeBefore, Drawing.bare_placeBefore, h.drawing]

theorem exists_current (h : c.SameShape c') {p : Polygon} (hc : c.drawing.current = some p) :
    ∃ p', c'.drawing.current = some p' ∧ p'.bare = p.bare := by
  have hcurrent : c'.drawing.current.map Polygon.bare = c.drawing.current.map Polygon.bare :=
    (congrArg Drawing.current h.drawing).symm
  rw [hc] at hcurrent
  exact Option.map_eq_some_iff.mp hcurrent

/-- If one canvas ends with a seed that is dropped, so does the other. -/
theorem untouched (h : c.SameShape c') {p : Polygon} (hc : c.drawing.current = some p)
    (hseed : p.isSeed = true) (hfree : p.free = #[]) (hpinned : p.pinned = #[])
    (hwaiting : c.queue.waiting = []) :
    ∃ p', c'.drawing.current = some p' ∧ p'.isSeed = true ∧ p'.free = #[] ∧ p'.pinned = #[] ∧
      c'.queue.waiting = [] := by
  obtain ⟨p', hc', hbare⟩ := h.exists_current hc
  refine ⟨p', hc', ?_, ?_, ?_, h.queue ▸ hwaiting⟩
  · rw [← p'.isSeed_bare, hbare, p.isSeed_bare, hseed]
  · rw [← Array.isEmpty_iff, ← p'.free_isEmpty_bare, hbare, p.free_isEmpty_bare, hfree]
    rfl
  · rw [← Array.isEmpty_iff, ← p'.pinned_isEmpty_bare, hbare, p.pinned_isEmpty_bare, hpinned]
    rfl

theorem untraced (h : c.SameShape c') :
    c.drawing.current.any (fun p => p.isSeed && p.pinned.isEmpty) =
      c'.drawing.current.any (fun p => p.isSeed && p.pinned.isEmpty) := by
  have hbare : ∀ d : Drawing, d.current.any (fun p => p.isSeed && p.pinned.isEmpty) =
      d.bare.current.any (fun p => p.isSeed && p.pinned.isEmpty) := by
    intro d
    unfold Drawing.bare
    cases d.current <;> simp
  rw [hbare c.drawing, hbare c'.drawing, h.drawing]

theorem drop (h : c.SameShape c') :
    (c.onDrawing fun d => { d with current := none }).SameShape
      (c'.onDrawing fun d => { d with current := none }) := by
  refine h.onDrawing fun d d' hd => ?_
  exact congrArg (fun b : Drawing => { b with current := none }) hd

theorem finish (h : c.SameShape c') : c.finish.SameShape c'.finish := by
  have hsymm : c'.SameShape c := ⟨h.drawing.symm, h.queue.symm⟩
  obtain ⟨p, hc, hseed, hfree, hpinned, hwaiting, hfinish⟩ | ⟨untraced, hkept, huntraced, hfinish⟩ :=
    c.finish_cases
  · obtain ⟨_, _, _, _, _, _, hfinish'⟩ | ⟨_, hkept', _, _⟩ := c'.finish_cases
    · rw [hfinish, hfinish']
      exact h.drop
    · obtain ⟨p', hc', hseed', hfree', hpinned', hwaiting'⟩ :=
        h.untouched hc hseed hfree hpinned hwaiting
      exact absurd hwaiting' (hkept' p' hc' hseed' hfree' hpinned')
  · obtain ⟨p', hc', hseed', hfree', hpinned', hwaiting', _⟩ | ⟨untraced', _, huntraced', hfinish'⟩ :=
      c'.finish_cases
    · obtain ⟨p, hc, hseed, hfree, hpinned, hwaiting⟩ :=
        hsymm.untouched hc' hseed' hfree' hpinned' hwaiting'
      exact absurd hwaiting (hkept p hc hseed hfree hpinned)
    · rw [hfinish, hfinish', huntraced, huntraced', h.flushAll.untraced]
      exact h.flushAll.finishPolygon _

end Canvas.SameShape

/-! ## Machines of one shape -/

/-- The pen up in both or down in both, and canvases of one shape. Nothing is said about coordinates,
headings and bindings. -/
structure Machine.SameShape (m m' : Machine) : Prop where
  pen : m.turtle.penDown = m'.turtle.penDown
  canvas : m.canvas.SameShape m'.canvas

namespace Machine

variable {m m' : Machine} {line : Int} {action : Action}

/-- What a command of a kind does to a machine, up to coordinates and texts. Arcs, loops and calls are
left out. -/
def sketch (m : Machine) (line : Int) (kind : Kind) : Machine :=
  if kind = .pu then m.penUp line
  else if kind = .pd then m.penDown line
  else if kind.makesPoint then m.lineTo .origin line
  else if kind.writesNote then m.placeNote [] line
  else m

namespace SameShape

theorem refl (m : Machine) : m.SameShape m := ⟨rfl, rfl, rfl⟩

theorem trans {m'' : Machine} (h : m.SameShape m') (k : m'.SameShape m'') : m.SameShape m'' :=
  ⟨h.pen.trans k.pen, h.canvas.drawing.trans k.canvas.drawing, h.canvas.queue.trans k.canvas.queue⟩

theorem symm (h : m.SameShape m') : m'.SameShape m :=
  ⟨h.pen.symm, h.canvas.drawing.symm, h.canvas.queue.symm⟩

theorem lineTo (h : m.SameShape m') (p p' : Point) (line : Int) :
    (m.lineTo p line).SameShape (m'.lineTo p' line) := by
  refine ⟨h.pen, ?_⟩
  dsimp only [Machine.lineTo]
  refine h.canvas.onDrawing fun d d' hd => ?_
  rw [h.pen]
  split
  · rw [Drawing.bare_addPoint, Drawing.bare_addPoint]
    exact congrArg (·.addPoint .origin .origin) hd
  · exact hd

theorem penUp (h : m.SameShape m') (line : Int) : (m.penUp line).SameShape (m'.penUp line) := by
  unfold Machine.penUp
  rw [h.pen]
  split
  · exact ⟨rfl, ((h.canvas.flushUpTo line).finishPolygon false).setCursor (line + 1)⟩
  · exact h

theorem penDown (h : m.SameShape m') (line : Int) : (m.penDown line).SameShape (m'.penDown line) := by
  unfold Machine.penDown
  rw [h.pen]
  split
  · exact h
  · exact ⟨rfl, ((h.canvas.flushUpTo line).setCursor (line + 1)).ensurePolygon _ _⟩

theorem placeNote (h : m.SameShape m') (text text' : Text) (line : Int) :
    (m.placeNote text line).SameShape (m'.placeNote text' line) := by
  unfold Machine.placeNote
  rw [h.pen]
  dsimp only
  split
  · refine ⟨h.pen, ?_⟩
    dsimp only [Machine.onCanvas]
    refine h.canvas.onDrawing fun d d' hd => ?_
    rw [Drawing.bare_pinComments, Drawing.bare_pinComments, hd]
    rfl
  · refine ⟨h.pen, ?_⟩
    dsimp only [Machine.onCanvas]
    refine (h.canvas.flushUpTo (line - 1)).onDrawing fun d d' hd => ?_
    let push : Polygon → Polygon := fun p => { p with free := p.free.push [] }
    rw [Drawing.bare_finishPolygon, Drawing.bare_finishPolygon, Drawing.bare_ensurePolygon,
      Drawing.bare_ensurePolygon, Drawing.bare_onCurrent (g := push) (Polygon.bare_pushFree text),
      Drawing.bare_onCurrent (g := push) (Polygon.bare_pushFree text'), Drawing.bare_ensureTarget,
      Drawing.bare_ensureTarget, hd]

theorem sketch (h : m.SameShape m') (line : Int) (kind : Kind) :
    (m.sketch line kind).SameShape (m'.sketch line kind) := by
  unfold Machine.sketch
  split_ifs
  · exact h.penUp line
  · exact h.penDown line
  · exact h.lineTo .origin .origin line
  · exact h.placeNote [] [] line
  · exact h

end SameShape

theorem sketch_of_still (silent : action.isSilent = true) (still : action.kind.makesPoint = false) :
    m.sketch line action.kind = m := by
  cases action with
  | penUp | penDown | arc _ _ | print _ | notePosition _ | marker _ _ => cases silent
  | forward _ | back _ | setX _ | setY _ | setXY _ _ | home => cases still
  | _ => rfl

theorem sketch_of_moves (silent : action.isSilent = true) (moves : action.kind.makesPoint = true) :
    m.sketch line action.kind = m.lineTo .origin line := by
  cases action with
  | arc _ _ => cases silent
  | forward _ | back _ | setX _ | setY _ | setXY _ _ | home => rfl
  | _ => cases moves

theorem sketch_of_noteOf {text : Text} (h : m.noteOf action = some text) :
    m.sketch line action.kind = m.placeNote [] line := by
  cases action with
  | print _ | notePosition _ | marker _ _ => rfl
  | _ => cases h

/-- An action that is no arc does what its kind says. -/
theorem Change.sameShape (h : m.Change line action m') (harc : action.kind ≠ .arc) :
    m'.SameShape (m.sketch line action.kind) := by
  cases h with
  | skip silent still =>
    rw [sketch_of_still silent still]
    exact .refl m
  | bind silent _ _ still =>
    rw [sketch_of_still silent still]
    exact ⟨rfl, rfl, rfl⟩
  | steer silent t _ pen _ still =>
    rw [sketch_of_still silent still]
    exact ⟨pen, rfl, rfl⟩
  | move silent p moves =>
    rw [sketch_of_moves silent moves]
    exact (SameShape.refl m).lineTo p .origin line
  | home => exact ⟨rfl, rfl, rfl⟩
  | penUp => exact .refl _
  | penDown => exact .refl _
  | flatArc => exact absurd rfl harc
  | arc => exact absurd rfl harc
  | note written =>
    rw [sketch_of_noteOf written]
    exact (SameShape.refl m).placeNote _ [] line
  | @marker label place p text written =>
    rw [sketch_of_noteOf written]
    have hmarked : (m.onCanvas (·.onDrawing (·.addMarker p label))).SameShape m := ⟨rfl, rfl, rfl⟩
    exact hmarked.placeNote text [] line

/-! ## What a kind places -/

/-- The comments among what a command of a kind places; a note leaves an empty mark. -/
def marks (m : Machine) (line : Int) (kind : Kind) : List (Option Comment) :=
  if kind = .pu then
    if m.turtle.penDown then (m.canvas.queue.placements line).map Placement.comment? else []
  else if kind = .pd then
    if m.turtle.penDown then [] else (m.canvas.queue.placements line).map Placement.comment?
  else if kind.writesNote then
    (if m.turtle.penDown then []
      else (m.canvas.queue.placements (line - 1)).map Placement.comment?) ++ [none]
  else []

theorem SameShape.marks (h : m.SameShape m') (line : Int) (kind : Kind) :
    m.marks line kind = m'.marks line kind := by
  unfold Machine.marks
  rw [h.pen, h.canvas.queue]

theorem marks_of_isSilent (silent : action.isSilent = true) : m.marks line action.kind = [] := by
  cases action with
  | penUp | penDown | arc _ _ | print _ | notePosition _ | marker _ _ => cases silent
  | _ => rfl

theorem marks_of_noteOf {text : Text} (h : m.noteOf action = some text) :
    m.marks line action.kind =
      (if m.turtle.penDown then []
        else (m.canvas.queue.placements (line - 1)).map Placement.comment?) ++ [none] := by
  cases action with
  | print _ | notePosition _ | marker _ _ => rfl
  | _ => cases h

theorem map_comment?_placedBy_of_noteOf {text : Text} (h : m.noteOf action = some text) :
    (m.placedBy line action).map Placement.comment? = m.marks line action.kind := by
  rw [placedBy_of_noteOf h, marks_of_noteOf h, List.map_append,
    apply_ite (List.map Placement.comment?)]
  rfl

theorem Change.marks (h : m.Change line action m') (harc : action.kind ≠ .arc) :
    (m.placedBy line action).map Placement.comment? = m.marks line action.kind := by
  cases h with
  | skip silent | bind silent | steer silent | move silent =>
    rw [placedBy_of_isSilent silent, marks_of_isSilent silent]
    rfl
  | home => rfl
  | penUp => exact apply_ite (List.map Placement.comment?) ..
  | penDown => exact apply_ite (List.map Placement.comment?) ..
  | flatArc => exact absurd rfl harc
  | arc => exact absurd rfl harc
  | note written => exact map_comment?_placedBy_of_noteOf written
  | marker written => exact map_comment?_placedBy_of_noteOf written

end Machine

/-! ## Runs -/

/-- Whether a command is neither an arc nor a loop nor a call. -/
def Kind.isPlain : Kind → Bool
  | arc | «repeat» | call => false
  | _ => true

section Runs

variable {limits limits' : Limits} {v v' : Visit} {m m' : Machine}

theorem Advance.sameShape (h : Advance limits v m) (harc : v.command.kind ≠ .arc) :
    m.SameShape (v.ready.sketch v.command.line v.command.kind) := by
  obtain hc | ⟨hsilent, hstill, trace, rfl⟩ := h.cases
  · exact hc.sameShape harc
  · rw [Command.kind, Machine.sketch_of_still hsilent hstill]
    exact ⟨rfl, rfl, rfl⟩

theorem Advance.marks (h : Advance limits v m) (harc : v.command.kind ≠ .arc) :
    v.placed.map Placement.comment? =
      v.placedAbove.map Placement.comment? ++ v.ready.marks v.command.line v.command.kind := by
  rw [Visit.placed, List.map_append]
  obtain hc | ⟨hsilent, -, -⟩ := h.cases
  · rw [hc.marks harc]
    rfl
  · rw [Command.kind, Machine.placedBy_of_isSilent hsilent, Machine.marks_of_isSilent hsilent]
    rfl

/-- Two commands of one kind on one line that start in states of one shape lead to states of one shape,
and they place the same comments and as many notes. -/
theorem Advance.lockstep (h : Advance limits v m) (h' : Advance limits' v' m')
    (hkind : v.command.kind = v'.command.kind) (hline : v.command.line = v'.command.line)
    (harc : v.command.kind ≠ .arc) (hbefore : v.before.SameShape v'.before) :
    m.SameShape m' ∧ v.placed.map Placement.comment? = v'.placed.map Placement.comment? := by
  have hready : v.ready.SameShape v'.ready := by
    refine ⟨hbefore.pen, ?_⟩
    show (v.before.canvas.beforeCommand v.command.kind v.command.line v.before.turtle.penDown
      v.before.turtle.position).SameShape (v'.before.canvas.beforeCommand v'.command.kind
        v'.command.line v'.before.turtle.penDown v'.before.turtle.position)
    rw [hkind, hline, hbefore.pen]
    exact hbefore.canvas.beforeCommand ..
  have habove : v.placedAbove = v'.placedAbove := by
    unfold Visit.placedAbove
    rw [hline, hbefore.pen, hbefore.canvas.queue]
  have harc' : v'.command.kind ≠ .arc := hkind ▸ harc
  refine ⟨(h.sameShape harc).trans (.trans ?_ (h'.sameShape harc').symm), ?_⟩
  · rw [hkind, hline]
    exact hready.sketch v'.command.line v'.command.kind
  · rw [h.marks harc, h'.marks harc', habove, hkind, hline, hready.marks]

/-- A command that is neither loop nor call is done with at once. -/
theorem startCommand_of_isPlain {command : Command} {room depth : Nat}
    (hplain : command.kind.isPlain = true) (h : runCommand limits room depth command m = .done m') :
    startCommand limits command m = .done m' := by
  obtain hdone | ⟨frame, body, n, inner, henter, -⟩ := runCommand_eq_done h
  · exact hdone
  · obtain ⟨action, line⟩ := command
    by_cases hstop : limits.steps < (m.begin line).steps
    · rw [startCommand_of_stop hstop] at henter
      cases henter
    · rw [startCommand_of_go hstop] at henter
      cases Machine.entry_of_act henter with
      | loop => cases hplain
      | list runs =>
        cases action with
        | repeatNamed | call => cases hplain
        | _ => cases runs

/-- Commands with the same kinds on the same lines, neither arcs nor loops nor calls. -/
structure Command.Pair (command command' : Command) : Prop where
  kind : command.kind = command'.kind
  line : command.line = command'.line
  plain : command.kind.isPlain = true

theorem sameShape_runAll {commands commands' : List Command} {room depth room' depth' : Nat}
    {n n' : Machine} (h : List.Forall₂ Command.Pair commands commands') (hm : m.SameShape m')
    (hrun : runAll (runCommand limits room depth) commands m = .done n)
    (hrun' : runAll (runCommand limits' room' depth') commands' m' = .done n') :
    n.SameShape n' ∧
      ((visitsAll (runCommand limits room depth) (visitsOf limits room depth) commands m).flatMap
        Visit.placed).map Placement.comment? =
      ((visitsAll (runCommand limits' room' depth') (visitsOf limits' room' depth') commands'
        m').flatMap Visit.placed).map Placement.comment? := by
  induction h generalizing m m' with
  | nil =>
    cases hrun
    cases hrun'
    exact ⟨hm, rfl⟩
  | @cons command command' rest rest' hpair _ ih =>
    cases hc : runCommand limits room depth command m with
    | failed failure k => simp only [runAll, hc] at hrun; cases hrun
    | done k =>
      cases hc' : runCommand limits' room' depth' command' m' with
      | failed failure k' => simp only [runAll, hc'] at hrun'; cases hrun'
      | done k' =>
        have hplain' : command'.kind.isPlain = true := hpair.kind ▸ hpair.plain
        have harc : command.kind ≠ .arc := by
          intro harc
          have hplain := hpair.plain
          rw [harc] at hplain
          cases hplain
        have hstart := startCommand_of_isPlain hpair.plain hc
        have hstart' := startCommand_of_isPlain hplain' hc'
        have hfirst : Advance limits ⟨command, m⟩ k := .done hstart
        have hfirst' : Advance limits' ⟨command', m'⟩ k' := .done hstart'
        obtain ⟨hk, hmarks⟩ := hfirst.lockstep hfirst' hpair.kind hpair.line harc hm
        simp only [runAll, hc, hc'] at hrun hrun'
        obtain ⟨hn, hrest⟩ := ih hk hrun hrun'
        refine ⟨hn, ?_⟩
        simp only [visitsAll, hc, hc', visitsOf_of_done hstart, visitsOf_of_done hstart',
          List.flatMap_append, List.flatMap_singleton, List.map_append, hmarks, hrest]

end Runs

/-! ## Sheets -/

/-- The places for comments of a polygon: each is marked with the comment of the source that it holds,
or unmarked if it holds a note. -/
structure Sheet where
  points : Nat
  commentOnly : Bool
  free : List (Option Comment)
  slots : List (Int × List (Option Comment))
  deriving DecidableEq, Repr

/-- The marks of a sheet in the order in which its comments are read. -/
def Sheet.marks (s : Sheet) : List (Option Comment) := s.free ++ s.slots.flatMap Prod.snd

/-- A text at a place that is marked with a comment is the text of that comment. -/
def Shows (mark : Option Comment) (text : Text) : Prop := ∀ c, mark = some c → text = c.text

/-- A polygon with as many points as a sheet says, the same slots in use, and at each place of the sheet
a text that shows its mark. -/
structure Sheet.Depicts (s : Sheet) (p : Polygon) : Prop where
  points : p.points.size = s.points
  commentOnly : p.commentOnly = s.commentOnly
  free : List.Forall₂ Shows s.free p.free.toList
  slots : List.Forall₂ (fun x y => x.1 = y.1 ∧ List.Forall₂ Shows x.2 y.2) s.slots p.slots

/-- Deals marks out to slots, as many to each as it has texts. -/
def dealSlots : List (Int × List Text) → List (Option Comment) → List (Int × List (Option Comment))
  | [], _ => []
  | (slot, texts) :: rest, marks =>
    (slot, marks.take texts.length) :: dealSlots rest (marks.drop texts.length)

/-- Deals marks out to the places of a polygon. -/
def Polygon.sheet (p : Polygon) (marks : List (Option Comment)) : Sheet :=
  ⟨p.points.size, p.commentOnly, marks.take p.free.size, dealSlots p.slots (marks.drop p.free.size)⟩

/-- Deals marks out to polygons. -/
def dealSheets : List Polygon → List (Option Comment) → List Sheet
  | [], _ => []
  | p :: rest, marks =>
    p.sheet (marks.take p.reading.length) :: dealSheets rest (marks.drop p.reading.length)

theorem dealSlots_spec {slots : List (Int × List Text)} {marks : List (Option Comment)}
    (h : List.Forall₂ Shows marks (slots.flatMap Prod.snd)) :
    List.Forall₂ (fun x y => x.1 = y.1 ∧ List.Forall₂ Shows x.2 y.2) (dealSlots slots marks) slots ∧
      (dealSlots slots marks).flatMap Prod.snd = marks := by
  induction slots generalizing marks with
  | nil =>
    cases h
    exact ⟨.nil, rfl⟩
  | cons x rest ih =>
    obtain ⟨slot, texts⟩ := x
    rw [List.flatMap_cons] at h
    obtain ⟨hrest, hmarks⟩ := ih (List.forall₂_drop_append marks texts _ h)
    refine ⟨.cons ⟨rfl, List.forall₂_take_append marks texts _ h⟩ hrest, ?_⟩
    rw [dealSlots, List.flatMap_cons, hmarks, List.take_append_drop]

theorem Polygon.sheet_spec {p : Polygon} {marks : List (Option Comment)}
    (h : List.Forall₂ Shows marks p.reading) :
    (p.sheet marks).Depicts p ∧ (p.sheet marks).marks = marks := by
  have hfree := List.forall₂_take_append marks p.free.toList _ h
  obtain ⟨hslots, hmarks⟩ := dealSlots_spec (List.forall₂_drop_append marks p.free.toList _ h)
  rw [Array.length_toList] at hfree hslots hmarks
  refine ⟨⟨rfl, rfl, hfree, hslots⟩, ?_⟩
  rw [Sheet.marks, sheet, hmarks, List.take_append_drop]

theorem dealSheets_spec {polygons : List Polygon} {marks : List (Option Comment)}
    (h : List.Forall₂ Shows marks (polygons.flatMap Polygon.reading)) :
    List.Forall₂ Sheet.Depicts (dealSheets polygons marks) polygons ∧
      (dealSheets polygons marks).flatMap Sheet.marks = marks := by
  induction polygons generalizing marks with
  | nil =>
    cases h
    exact ⟨.nil, rfl⟩
  | cons p rest ih =>
    rw [List.flatMap_cons] at h
    obtain ⟨hp, hfirst⟩ := p.sheet_spec (List.forall₂_take_append marks p.reading _ h)
    obtain ⟨hrest, hmarks⟩ := ih (List.forall₂_drop_append marks p.reading _ h)
    refine ⟨.cons hp hrest, ?_⟩
    rw [dealSheets, List.flatMap_cons, hfirst, hmarks, List.take_append_drop]

/-! ### Bare polygons have the same places -/

namespace Polygon

theorem groupSlots_blank (xs : List (Int × Text)) :
    groupSlots (xs.map fun x => (x.1, [])) =
      (groupSlots xs).map fun x => (x.1, blanks x.2) := by
  induction xs with
  | nil => rfl
  | cons x xs ih =>
    obtain ⟨slot, text⟩ := x
    rw [List.map_cons, groupSlots, groupSlots, ih]
    cases groupSlots xs with
    | nil => rfl
    | cons y groups =>
      simp only [List.map_cons]
      split
      · rfl
      · rfl

theorem slots_bare (p : Polygon) : p.bare.slots = p.slots.map fun x => (x.1, blanks x.2) := by
  have hpinned : p.bare.pinnedInOrder = p.pinnedInOrder.map fun x => (x.1, []) := by
    rw [pinnedInOrder, bare, Array.toList_map, sortOn_map]
    rfl
  rw [slots, hpinned, groupSlots_blank]
  rfl

theorem dealSlots_blank (slots : List (Int × List Text)) (marks : List (Option Comment)) :
    dealSlots (slots.map fun x => (x.1, blanks x.2)) marks = dealSlots slots marks := by
  induction slots generalizing marks with
  | nil => rfl
  | cons x rest ih =>
    rw [List.map_cons, dealSlots, dealSlots, ih, blanks, List.length_map]

theorem sheet_bare (p : Polygon) (marks : List (Option Comment)) :
    p.bare.sheet marks = p.sheet marks := by
  unfold sheet
  rw [slots_bare, dealSlots_blank]
  simp [bare]

theorem length_reading_bare (p : Polygon) : p.bare.reading.length = p.reading.length := by
  unfold reading
  rw [slots_bare, List.flatMap_map, List.length_append, List.length_append, List.length_flatMap,
    List.length_flatMap]
  simp [bare, blanks]

end Polygon

theorem dealSheets_bare (polygons : List Polygon) (marks : List (Option Comment)) :
    dealSheets (polygons.map Polygon.bare) marks = dealSheets polygons marks := by
  induction polygons generalizing marks with
  | nil => rfl
  | cons p rest ih =>
    rw [List.map_cons, dealSheets, dealSheets, ih, p.sheet_bare, p.length_reading_bare]

/-! ## Attribution -/

theorem shows_of_execute {limits : Limits} {resolution : Int} {commands : List Command}
    {comments : List Comment} {m : Machine}
    (h : execute limits resolution commands comments = .done m) :
    List.Forall₂ Shows ((placements limits resolution commands comments).map Placement.comment?)
      (m.drawing.polygons.toList.flatMap Polygon.reading) := by
  rw [reading_of_execute h, List.forall₂_map_left_iff, List.forall₂_map_right_iff,
    List.forall₂_same]
  rintro (comment | text) - c hc
  · cases hc
    rfl
  · cases hc

/-- Two runs of commands with the same kinds on the same lines, without arcs, loops and calls, that both
come to their end with the same comments: one row of sheets depicts the polygons of both. Its marks are
the comments that either run has placed, in the order of time, and are missing where it has placed a
note. -/
theorem attribution_of_kinds_and_lines {limits limits' : Limits} {resolution resolution' : Int}
    {commands commands' : List Command} {comments : List Comment} {m m' : Machine}
    (hpairs : List.Forall₂ Command.Pair commands commands')
    (h : execute limits resolution commands comments = .done m)
    (h' : execute limits' resolution' commands' comments = .done m') :
    ∃ sheets : List Sheet,
      List.Forall₂ Sheet.Depicts sheets m.drawing.polygons.toList ∧
      List.Forall₂ Sheet.Depicts sheets m'.drawing.polygons.toList ∧
      sheets.flatMap Sheet.marks =
        (placements limits resolution commands comments).map Placement.comment? ∧
      sheets.flatMap Sheet.marks =
        (placements limits' resolution' commands' comments).map Placement.comment? := by
  have hread := shows_of_execute h
  have hread' := shows_of_execute h'
  obtain ⟨n, hrun, rfl⟩ := execute_eq_done h
  obtain ⟨n', hrun', rfl⟩ := execute_eq_done h'
  have hstart : (Machine.start resolution comments).SameShape (.start resolution' comments) :=
    ⟨rfl, rfl, rfl⟩
  obtain ⟨hn, hvisits⟩ := sameShape_runAll hpairs hstart hrun hrun'
  have hmarks : (placements limits resolution commands comments).map Placement.comment? =
      (placements limits' resolution' commands' comments).map Placement.comment? := by
    simp only [placements, hrun, hrun', Outcome.machine, List.map_append, hn.canvas.queue]
    exact congrArg (· ++ _) hvisits
  have hpolygons : n.finish.drawing.polygons.toList.map Polygon.bare =
      n'.finish.drawing.polygons.toList.map Polygon.bare := by
    have hbare := congrArg Drawing.polygons hn.canvas.finish.drawing
    rw [← Array.toList_map, ← Array.toList_map]
    exact congrArg Array.toList hbare
  -- The sheets are dealt out along the bare polygons, which are those of both runs.
  obtain ⟨hdepicts, hdealt⟩ := dealSheets_spec hread
  obtain ⟨hdepicts', hdealt'⟩ := dealSheets_spec hread'
  have hsheets : dealSheets n.finish.drawing.polygons.toList
        ((placements limits resolution commands comments).map Placement.comment?) =
      dealSheets n'.finish.drawing.polygons.toList
        ((placements limits' resolution' commands' comments).map Placement.comment?) := by
    rw [← dealSheets_bare, hpolygons, dealSheets_bare, hmarks]
  refine ⟨_, hdepicts, ?_, hdealt, hdealt.trans hmarks⟩
  rw [hsheets]
  exact hdepicts'

/-- Lines of different lengths, other notes and another label; with the comments above and below. -/
theorem attribution_of_two_runs :
    let commands : List Command := [⟨.setX (.number 3), 2⟩, ⟨.print [.text "a".toList], 3⟩,
      ⟨.home, 5⟩, ⟨.penUp, 6⟩, ⟨.notePosition none, 8⟩]
    let commands' : List Command := [⟨.setX (.number 0), 2⟩,
      ⟨.print [.value (.number 7), .text "# one".toList], 3⟩, ⟨.home, 5⟩, ⟨.penUp, 6⟩,
      ⟨.notePosition (some "b".toList), 8⟩]
    let one : Comment := ⟨"# one".toList, 1, none⟩
    let four : Comment := ⟨"# four".toList, 4, none⟩
    let seven : Comment := ⟨"# seven".toList, 7, none⟩
    List.Forall₂ Command.Pair commands commands' ∧
      ∃ m m', execute {} 40 commands [seven, one, four] = .done m ∧
        execute {} 12 commands' [seven, one, four] = .done m' ∧
        ∃ sheets : List Sheet, List.Forall₂ Sheet.Depicts sheets m.drawing.polygons.toList ∧
          List.Forall₂ Sheet.Depicts sheets m'.drawing.polygons.toList ∧
          sheets.flatMap Sheet.marks = [some one, none, some four, some seven, none] := by
  intro commands commands' one four seven
  have hpairs : List.Forall₂ Command.Pair commands commands' :=
    .cons ⟨rfl, rfl, rfl⟩ <| .cons ⟨rfl, rfl, rfl⟩ <| .cons ⟨rfl, rfl, rfl⟩ <|
      .cons ⟨rfl, rfl, rfl⟩ <| .cons ⟨rfl, rfl, rfl⟩ .nil
  obtain ⟨m, h⟩ : ∃ m, execute {} 40 commands [seven, one, four] = .done m :=
    Outcome.exists_of_isDone (by decide +kernel)
  obtain ⟨m', h'⟩ : ∃ m, execute {} 12 commands' [seven, one, four] = .done m :=
    Outcome.exists_of_isDone (by decide +kernel)
  obtain ⟨sheets, hdepicts, hdepicts', hmarks, -⟩ := attribution_of_kinds_and_lines hpairs h h'
  refine ⟨hpairs, m, m', h, h', sheets, hdepicts, hdepicts', hmarks.trans ?_⟩
  decide +kernel

end TurtleTrace
