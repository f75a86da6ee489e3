import TurtleTrace.Proofs.Comments.Conservation
import TurtleTrace.Proofs.Comments.Course

/-!
# Polygons that are there for a comment

A comment in front of a command that makes a point is pinned to the polygon that the point will belong
to, and the polygon is opened for it. An arc without angle or radius then makes no point: the polygon
stays behind with its seed and its comment, and is drawn. Nothing else that a comment does adds to the
polygons that are drawn.

* `Drawing.tally`: the number of polygons drawn so far, and how far the open one has come.
* `Tally.Effect`: what an action does to a tally.
* `Tally.Exceeds`: the tally of a run against that of the same commands without comments.
* `Visit.pinsInVain`: comments in front of an arc that traces nothing.
-/

namespace TurtleTrace

set_option autoImplicit false

/-! ## Tallies -/

/-- How far a polygon has come: it has no point (0), its seed alone (1), its seed and a pinned comment
(2), or more points (3). From 1 on it is drawn when the pen is lifted, from 2 on also at the end of the
run. -/
def Polygon.stage (p : Polygon) : Nat :=
  if p.points.size = 0 then 0
  else if 2 ≤ p.points.size then 3
  else if p.pinned.size = 0 then 1
  else 2

structure Tally where
  drawn : Nat
  stage : Nat

namespace Drawing

/-- The number of finished polygons that are not comments alone. -/
def drawn (d : Drawing) : Nat := d.polygons.toList.countP (!·.commentOnly)

/-- The number of polygons drawn, and the stage of the open one. -/
def tally (d : Drawing) : Tally := ⟨d.drawn, d.current.elim 0 Polygon.stage⟩

end Drawing

namespace Tally

def pin (t : Tally) : Tally := ⟨t.drawn, max 2 t.stage⟩

def close (t : Tally) : Tally := ⟨t.drawn + min 1 t.stage, 0⟩

/-- The number of polygons drawn if the run ends here. -/
def final (t : Tally) : Nat := t.drawn + if 2 ≤ t.stage then 1 else 0

inductive Effect where
  | keep
  | pin
  | trace
  | close
  | reopen
  | arc

/-- An arc is drawn, and so is the polygon before it if that has been traced. -/
def Effect.apply : Effect → Tally → Tally
  | keep, t => t
  | pin, t => t.pin
  | trace, t => ⟨t.drawn, 3⟩
  | close, t => t.close
  | reopen, t => ⟨t.drawn, 1⟩
  | arc, t => ⟨t.drawn + if t.stage = 3 then 2 else 1, 0⟩

/-- The second tally has all polygons of the first and at most `surplus` more. An open polygon that is
ahead by a pinned comment counts as one of these. -/
structure Exceeds (surplus : Nat) (t t' : Tally) : Prop where
  drawn_le : t.drawn ≤ t'.drawn
  stage : t.stage = t'.stage ∧ t'.drawn ≤ t.drawn + surplus ∨
    t.stage < 2 ∧ t'.stage = 2 ∧ t'.drawn + 1 ≤ t.drawn + surplus

namespace Exceeds

variable {k : Nat} {t t' : Tally}

theorem apply (h : Exceeds k t t') (e : Effect) : Exceeds k (e.apply t) (e.apply t') := by
  obtain ⟨hle, ⟨hstage, hdrawn⟩ | ⟨hlow, hpinned, hdrawn⟩⟩ := h
  · cases e with
    | keep => exact ⟨hle, .inl ⟨hstage, hdrawn⟩⟩
    | pin => exact ⟨hle, .inl ⟨by simp only [Effect.apply, Tally.pin, hstage], hdrawn⟩⟩
    | trace | reopen => exact ⟨hle, .inl ⟨rfl, hdrawn⟩⟩
    | close =>
      refine ⟨?_, .inl ⟨rfl, ?_⟩⟩ <;> simp only [Effect.apply, Tally.close, hstage] <;> omega
    | arc => refine ⟨?_, .inl ⟨rfl, ?_⟩⟩ <;> simp only [Effect.apply, hstage] <;> omega
  · -- The open polygons differ by a pinned comment. Neither is traced, and every effect but the first
    -- makes their stages equal again.
    have hseed : ¬ t.stage = 3 := by omega
    have hseed' : ¬ t'.stage = 3 := by omega
    cases e with
    | keep => exact ⟨hle, .inr ⟨hlow, hpinned, hdrawn⟩⟩
    | pin =>
      refine ⟨hle, .inl ⟨?_, ?_⟩⟩ <;> simp only [Effect.apply, Tally.pin] <;> omega
    | trace | reopen => exact ⟨hle, .inl ⟨rfl, by simp only [Effect.apply]; omega⟩⟩
    | close =>
      refine ⟨?_, .inl ⟨rfl, ?_⟩⟩ <;> simp only [Effect.apply, Tally.close] <;> omega
    | arc =>
      refine ⟨?_, .inl ⟨rfl, ?_⟩⟩ <;> simp only [Effect.apply, hseed, hseed', if_false] <;> omega

/-- A comment that is pinned in vain may turn out to be one polygon more. -/
theorem pin (h : Exceeds k t t') : Exceeds (k + 1) t t'.pin := by
  obtain ⟨hle, ⟨hstage, hdrawn⟩ | ⟨hlow, hpinned, hdrawn⟩⟩ := h
  · by_cases hlow : t.stage < 2
    · refine ⟨hle, .inr ⟨hlow, ?_, ?_⟩⟩ <;> simp only [Tally.pin] <;> omega
    · refine ⟨hle, .inl ⟨?_, ?_⟩⟩ <;> simp only [Tally.pin] <;> omega
  · refine ⟨hle, .inr ⟨hlow, ?_, ?_⟩⟩ <;> simp only [Tally.pin] <;> omega

/-- A comment that is pinned for a point or an arc makes no difference. -/
theorem apply_pin (h : Exceeds k t t') {e : Effect} (he : e = .trace ∨ e = .arc) :
    Exceeds k (e.apply t) (e.apply t'.pin) := by
  have hpin : e.apply t'.pin = e.apply t' := by
    obtain rfl | rfl := he
    · rfl
    · have hmax : max 2 t'.stage = 3 ↔ t'.stage = 3 := by omega
      simp only [Effect.apply, Tally.pin, hmax]
  rw [hpin]
  exact h.apply e

theorem final (h : Exceeds k t t') : t.final ≤ t'.final ∧ t'.final ≤ t.final + k := by
  obtain ⟨hle, ⟨hstage, hdrawn⟩ | ⟨hlow, hpinned, hdrawn⟩⟩ := h
  · simp only [Tally.final, hstage]
    omega
  · have hseed : ¬ 2 ≤ t.stage := by omega
    simp only [Tally.final, hseed, hpinned, if_false, Nat.le_refl, if_true]
    omega

end Exceeds

end Tally

/-! ## Polygons -/

namespace Polygon

variable (p : Polygon) (texts : List Text)

theorem stage_le_three : p.stage ≤ 3 := by
  unfold stage
  split_ifs <;> omega

theorem stage_eq_three_iff : p.stage = 3 ↔ 2 ≤ p.points.size := by
  unfold stage
  split_ifs <;> simp <;> omega

theorem stage_pos_iff : 0 < p.stage ↔ 0 < p.points.size := by
  unfold stage
  split_ifs <;> omega

theorem isSeed_iff : p.isSeed = true ↔ p.points.size ≤ 1 := decide_eq_true_iff

theorem size_pinned_pinHere : (p.pinHere texts).pinned.size = p.pinned.size + texts.length := by
  simp [pinHere, pin, ← Array.length_toList]

theorem stage_addComments : (p.addComments texts).stage = p.stage := by
  unfold addComments
  split
  · rfl
  · rename_i hpinned
    rw [Bool.and_eq_true, isSeed_iff, Array.isEmpty_iff_size_eq_zero] at hpinned
    have hpoints : (p.pinHere texts).points = p.points := rfl
    simp only [stage, hpoints, size_pinned_pinHere]
    split_ifs <;> omega

variable {p texts}

theorem stage_pinHere (hp : 0 < p.points.size) (ht : texts ≠ []) :
    (p.pinHere texts).stage = if 2 ≤ p.points.size then 3 else 2 := by
  have hpos : 0 < texts.length := List.length_pos_iff.mpr ht
  have hpoints : (p.pinHere texts).points = p.points := rfl
  simp only [stage, hpoints, size_pinned_pinHere]
  split_ifs <;> omega

end Polygon

/-! ## Drawings -/

namespace Drawing

variable {d : Drawing} {p : Polygon}

theorem tally_of_none (h : d.current = none) : d.tally = ⟨d.drawn, 0⟩ := by
  simp only [tally, h, Option.elim_none]

theorem tally_of_some (h : d.current = some p) : d.tally = ⟨d.drawn, p.stage⟩ := by
  simp only [tally, h, Option.elim_some]

theorem tally_onCurrent {f : Polygon → Polygon} (h : d.current = some p) :
    (d.onCurrent f).tally = ⟨d.drawn, (f p).stage⟩ := by
  have hf : (d.onCurrent f).current = some (f p) := by simp [onCurrent, h]
  rw [tally_of_some hf]
  rfl

theorem stage_tally_le (d : Drawing) : d.tally.stage ≤ 3 := by
  cases hc : d.current with
  | none => simp [tally_of_none hc]
  | some p => simpa [tally_of_some hc] using p.stage_le_three

theorem stage_tally_eq_three_iff (d : Drawing) (position : Point) :
    d.tally.stage = 3 ↔ 2 ≤ (d.trail position).size := by
  cases hc : d.current with
  | none => simp [tally_of_none hc, trail_of_none hc]
  | some p =>
    rw [tally_of_some hc, Polygon.stage_eq_three_iff, trail_of_some hc]
    split
    · rename_i he
      simp [Array.isEmpty_iff.mp he]
    · rfl

theorem size_trail_pos (d : Drawing) (position : Point) : 0 < (d.trail position).size := by
  unfold trail
  split
  · simp
  · split
    · simp
    · rename_i he
      rw [Array.isEmpty_iff_size_eq_zero] at he
      omega

theorem tally_addComments (texts : List Text) (d : Drawing) : (d.addComments texts).tally = d.tally := by
  unfold addComments ensureTarget
  cases hc : d.current with
  | none =>
    have hstage := Polygon.stage_addComments .empty texts
    rw [tally_of_none hc]
    exact (tally_onCurrent rfl).trans (congrArg (Tally.mk _) hstage)
  | some p => rw [tally_onCurrent hc, tally_of_some hc, Polygon.stage_addComments]

theorem tally_place (texts : List Text) (d : Drawing) : (d.place texts).tally = d.tally := by
  unfold place
  split
  · rfl
  · exact tally_addComments texts d

@[simp] theorem drawn_ensurePolygon (d : Drawing) (position : Point) :
    (d.ensurePolygon position).drawn = d.drawn := by
  unfold ensurePolygon
  split
  · rfl
  · split <;> rfl

@[simp] theorem drawn_ensureTarget (d : Drawing) : d.ensureTarget.drawn = d.drawn := by
  unfold ensureTarget
  split <;> rfl

@[simp] theorem drawn_onCurrent (d : Drawing) (f : Polygon → Polygon) :
    (d.onCurrent f).drawn = d.drawn := rfl

theorem tally_pinComments {texts : List Text} (ht : texts ≠ []) (d : Drawing) (position : Point) :
    (d.pinComments texts position).tally = d.tally.pin := by
  obtain ⟨q, hq, hpoints⟩ := d.exists_ensurePolygon position
  have hpos := d.size_trail_pos position
  have hthree := d.stage_tally_eq_three_iff position
  have hle := d.stage_tally_le
  have hstage : (q.pinHere texts).stage = max 2 d.tally.stage := by
    rw [Polygon.stage_pinHere (hpoints ▸ hpos) ht, hpoints]
    split_ifs <;> omega
  unfold pinComments
  rw [tally_onCurrent hq, hstage, drawn_ensurePolygon]
  rfl

theorem tally_placeBefore (d : Drawing) (texts : List Text) (kind : Kind) (position : Point) :
    (d.placeBefore texts kind position).tally =
      if kind.makesPoint && !texts.isEmpty then d.tally.pin else d.tally := by
  unfold placeBefore
  cases texts with
  | nil => simp
  | cons text rest =>
    cases hk : kind.makesPoint with
    | true => exact tally_pinComments (List.cons_ne_nil text rest) d position
    | false => exact tally_addComments (text :: rest) d

theorem tally_addPoint (d : Drawing) (p position : Point) :
    (d.addPoint p position).tally = ⟨d.drawn, 3⟩ := by
  obtain ⟨q, hq, hpoints⟩ := d.exists_ensurePolygon position
  have hpos := d.size_trail_pos position
  have hstage : (q.addPoint p).stage = 3 := by
    rw [Polygon.stage_eq_three_iff, Polygon.addPoint, Array.size_push, hpoints]
    omega
  unfold addPoint
  rw [tally_onCurrent hq, hstage, drawn_ensurePolygon]

/-- A polygon that is opened where no comment is pinned has its seed alone. -/
theorem tally_ensurePolygon (position : Point) (h : d.tally.stage = 0)
    (hpinned : ∀ p, d.current = some p → p.pinned = #[]) :
    (d.ensurePolygon position).tally = ⟨d.drawn, 1⟩ := by
  unfold ensurePolygon
  split
  · rfl
  · rename_i p hc
    have hempty : p.points.size = 0 := by
      have hpos := p.stage_pos_iff
      have hzero : p.stage = 0 := by simpa only [tally_of_some hc] using h
      omega
    have hstage : (p.addPoint position).stage = 1 := by
      simp [Polygon.stage, Polygon.addPoint, hempty, hpinned p hc]
    rw [if_pos (Array.isEmpty_iff_size_eq_zero.mpr hempty), tally_of_some rfl, hstage]
    rfl

theorem drawn_finishPolygon (h : d.current = some p) (commentOnly : Bool) (circle : Option Circle) :
    (d.finishPolygon commentOnly circle).drawn =
      d.drawn + if commentOnly || p.points.isEmpty then 0 else 1 := by
  simp only [finishPolygon, h, drawn, Array.toList_push, List.countP_append, List.countP_singleton]
  cases commentOnly <;> cases p.points.isEmpty <;> rfl

theorem tally_finishPolygon (d : Drawing) (circle : Option Circle) :
    (d.finishPolygon false circle).tally = d.tally.close := by
  rw [tally_of_none (current_finishPolygon ..)]
  cases hc : d.current with
  | none => simp [finishPolygon, hc, tally_of_none, Tally.close]
  | some p =>
    have hpos := p.stage_pos_iff
    have hempty : p.points.isEmpty = true ↔ p.points.size = 0 := Array.isEmpty_iff_size_eq_zero
    simp only [drawn_finishPolygon hc, tally_of_some hc, Tally.close, Bool.false_or, hempty]
    congr 2
    split <;> omega

theorem drawn_finishPolygon_commentOnly (d : Drawing) (circle : Option Circle) :
    (d.finishPolygon true circle).drawn = d.drawn := by
  cases hc : d.current with
  | none => simp [finishPolygon, hc]
  | some p => rw [drawn_finishPolygon hc, Bool.true_or, if_pos rfl, Nat.add_zero]

end Drawing

/-! ## Canvases -/

namespace Canvas

theorem tally_flushUpTo (c : Canvas) (line : Int) :
    (c.flushUpTo line).drawing.tally = c.drawing.tally := Drawing.tally_place _ _

theorem tally_closeBeforeArc (c : Canvas) (line : Int) :
    (Machine.closeBeforeArc c line).drawing.tally =
      if c.drawing.tally.stage = 3 then c.drawing.tally.close else c.drawing.tally := by
  unfold Machine.closeBeforeArc
  cases hc : c.drawing.current with
  | none => simp [Drawing.tally_of_none hc]
  | some p =>
    have hthree := p.stage_eq_three_iff
    have hseed := p.isSeed_iff
    rw [Drawing.tally_of_some hc]
    by_cases hs : p.isSeed = true
    · have hsize := hseed.mp hs
      have hlow : ¬ p.stage = 3 := by omega
      simp only [hs, hlow, if_true, if_false, Drawing.tally_of_some hc]
    · have hsize := mt hseed.mpr hs
      have hhigh : p.stage = 3 := by omega
      simp only [hs, hhigh, Bool.false_eq_true, if_true, if_false]
      show ((c.flushUpTo (line - 1)).drawing.finishPolygon false none).tally = _
      rw [Drawing.tally_finishPolygon, tally_flushUpTo, Drawing.tally_of_some hc, hhigh]

theorem tally_arcPolygon (c : Canvas) (line : Int) {points : Array Point} (hp : points ≠ #[])
    (circle : Option Circle) :
    (Machine.arcPolygon c line points circle).drawing.tally =
      Tally.Effect.arc.apply c.drawing.tally := by
  have hclose := tally_closeBeforeArc c line
  unfold Machine.arcPolygon
  generalize Machine.closeBeforeArc c line = c₁ at hclose
  show ((Canvas.flushUpTo (c₁.onDrawing _) line).drawing.finishPolygon false circle).tally = _
  rw [Drawing.tally_finishPolygon, tally_flushUpTo]
  obtain ⟨q, hq⟩ := Option.ne_none_iff_exists'.mp c₁.drawing.current_ensureTarget
  have hpos : 0 < ({ q with points := points } : Polygon).stage := by
    rw [Polygon.stage_pos_iff]
    exact Array.size_pos_iff.mpr hp
  show (Drawing.onCurrent _ _).tally.close = _
  rw [Drawing.tally_onCurrent hq, Drawing.drawn_ensureTarget]
  have hdrawn : c₁.drawing.drawn = c₁.drawing.tally.drawn := rfl
  rw [hdrawn, hclose]
  by_cases hs : c.drawing.tally.stage = 3
  · simp only [hs, if_true, Tally.close, Tally.Effect.apply, Tally.mk.injEq, and_true]
    omega
  · simp only [hs, if_false, Tally.close, Tally.Effect.apply, Tally.mk.injEq, and_true]
    omega

/-- The end of a run draws the open polygon if it has been traced or has a comment pinned to it. -/
theorem drawn_finish (c : Canvas) :
    c.finish.drawing.drawn = c.drawing.tally.final := by
  obtain ⟨p, hc, hseed, -, hpinned, -, hfinish⟩ | ⟨untraced, -, huntraced, hfinish⟩ := c.finish_cases
  · have hlow : ¬ 2 ≤ p.stage := by
      have hsize := p.isSeed_iff.mp hseed
      have hnone : p.pinned.size = 0 := by simp [hpinned]
      unfold Polygon.stage
      split_ifs <;> omega
    rw [hfinish, Drawing.tally_of_some hc, Tally.final, if_neg hlow]
    rfl
  · have hflush : c.flushAll.drawing.tally = c.drawing.tally := Drawing.tally_place _ _
    rw [hfinish, ← hflush]
    show (c.flushAll.drawing.finishPolygon untraced none).drawn = _
    generalize c.flushAll.drawing = d at huntraced
    cases hc : d.current with
    | none => simp [Drawing.finishPolygon, hc, Drawing.tally_of_none, Tally.final]
    | some p =>
      rw [Drawing.drawn_finishPolygon hc, Drawing.tally_of_some hc, Tally.final, huntraced, hc]
      simp only [Option.any_some, Polygon.isSeed, Polygon.stage, Bool.or_eq_true, Bool.and_eq_true,
        decide_eq_true_eq, Array.isEmpty_iff_size_eq_zero]
      split_ifs <;> omega

end Canvas

/-! ## Actions -/

namespace Machine

/-- Whether and how an action adds to the tally. With the pen up only putting it down does. -/
def effectOf (m : Machine) : Action → Tally.Effect
  | .penUp => if m.turtle.penDown then .close else .keep
  | .penDown => if m.turtle.penDown then .keep else .reopen
  | .arc e f => if m.turtle.penDown && m.tracesArc e f then .arc else .keep
  | action =>
    if !m.turtle.penDown then .keep
    else if action.kind.makesPoint then .trace
    else if action.kind.writesNote then .pin
    else .keep

variable {m m' : Machine} {line : Int} {action : Action}

theorem effectOf_of_still (silent : action.isSilent = true) (still : action.kind.makesPoint = false) :
    m.effectOf action = .keep := by
  cases action with
  | penUp | penDown | arc _ _ | print _ | notePosition _ | marker _ _ => cases silent
  | forward _ | back _ | setX _ | setY _ | setXY _ _ | home => cases still
  | _ => exact ite_self _

theorem effectOf_of_moves (silent : action.isSilent = true) (moves : action.kind.makesPoint = true) :
    m.effectOf action = if m.turtle.penDown then .trace else .keep := by
  cases action with
  | arc _ _ => cases silent
  | forward _ | back _ | setX _ | setY _ | setXY _ _ | home =>
    cases hd : m.turtle.penDown <;> simp [effectOf, hd, moves]
  | _ => cases moves

theorem effectOf_of_noteOf {text : Text} (h : m.noteOf action = some text) :
    m.effectOf action = if m.turtle.penDown then .pin else .keep := by
  cases action with
  | print _ | notePosition _ | marker _ _ =>
    cases hd : m.turtle.penDown <;> simp [effectOf, hd, Action.kind, Kind.makesPoint, Kind.writesNote]
  | _ => cases h

theorem tally_lineTo (m : Machine) (p : Point) (line : Int) :
    (m.lineTo p line).drawing.tally =
      (if m.turtle.penDown then Tally.Effect.trace else .keep).apply m.drawing.tally := by
  rw [drawing_lineTo]
  cases m.turtle.penDown with
  | true => exact Drawing.tally_addPoint _ p m.turtle.position
  | false => rfl

theorem tally_penUp (m : Machine) (line : Int) :
    (m.penUp line).drawing.tally = (m.effectOf .penUp).apply m.drawing.tally := by
  unfold penUp effectOf
  split
  · show ((m.canvas.flushUpTo line).drawing.finishPolygon false none).tally = _
    rw [Drawing.tally_finishPolygon, Canvas.tally_flushUpTo]
    rfl
  · rfl

theorem tally_penDown (hclosed : m.PenUpClosed) (line : Int) :
    (m.penDown line).drawing.tally = (m.effectOf .penDown).apply m.drawing.tally := by
  unfold penDown effectOf
  split
  · rfl
  · rename_i hup
    have hnone : m.canvas.drawing.current = none := hclosed (by simpa using hup)
    have hflush := Canvas.tally_flushUpTo m.canvas line
    have hstage : (m.canvas.flushUpTo line).drawing.tally.stage = 0 := by
      rw [hflush, Drawing.tally_of_none hnone]
    show ((m.canvas.flushUpTo line).drawing.ensurePolygon m.turtle.position).tally = _
    rw [Drawing.tally_ensurePolygon _ hstage (Canvas.pinned_flushUpTo _ line hnone)]
    exact congrArg (fun t : Tally => (⟨t.drawn, 1⟩ : Tally)) hflush

theorem tally_placeNote (hclosed : m.PenUpClosed) (text : Text) (line : Int) :
    (m.placeNote text line).drawing.tally =
      (if m.turtle.penDown then Tally.Effect.pin else .keep).apply m.drawing.tally := by
  unfold placeNote
  split
  · exact Drawing.tally_pinComments (List.cons_ne_nil text []) m.drawing m.turtle.position
  · rename_i hup
    have hnone : m.drawing.current = none := hclosed (by simpa using hup)
    have hflush := Canvas.tally_flushUpTo m.canvas (line - 1)
    show (Drawing.finishPolygon (Drawing.ensurePolygon (Drawing.onCurrent _ _) m.turtle.position)
      true none).tally = m.drawing.tally
    rw [Drawing.tally_of_none (Drawing.current_finishPolygon ..),
      Drawing.drawn_finishPolygon_commentOnly, Drawing.drawn_ensurePolygon, Drawing.drawn_onCurrent,
      Drawing.drawn_ensureTarget, Drawing.tally_of_none hnone]
    exact congrArg (fun t : Tally => (⟨t.drawn, 0⟩ : Tally)) hflush

theorem tally_traceArc (m : Machine) {vertices : Array Point} (hv : 2 ≤ vertices.size)
    (angle radius : Float) (line : Int) :
    (m.traceArc vertices angle radius line).drawing.tally =
      (if m.turtle.penDown then Tally.Effect.arc else .keep).apply m.drawing.tally := by
  cases hd : m.turtle.penDown with
  | true =>
    simp only [traceArc, Turtle.openArcGroup, drawing, hd, if_true]
    rw [Canvas.tally_arcPolygon _ _ (extract_ne_empty hv)]
    exact congrArg Tally.Effect.arc.apply (addArcSegments_frame Drawing.tally (fun _ _ _ => rfl) _ _)
  | false =>
    simp only [traceArc, Turtle.openArcGroup, drawing, hd, Bool.false_eq_true, if_false]
    exact addArcSegments_frame Drawing.tally (fun _ _ _ => rfl) _ _

theorem Change.tally (h : m.Change line action m') (hclosed : m.PenUpClosed) :
    m'.drawing.tally = (m.effectOf action).apply m.drawing.tally := by
  cases h with
  | skip silent still => rw [effectOf_of_still silent still]; rfl
  | bind silent _ _ still => rw [effectOf_of_still silent still]; rfl
  | steer silent _ _ _ _ still => rw [effectOf_of_still silent still]; rfl
  | move silent p moves => rw [effectOf_of_moves silent moves, tally_lineTo]
  | home => rw [effectOf_of_moves rfl rfl]; exact tally_lineTo m .origin line
  | penUp => exact tally_penUp m line
  | penDown => exact tally_penDown hclosed line
  | flatArc angleOk radiusOk flat =>
    simp only [effectOf, tracesArc, angleOk, radiusOk, flat, Bool.not_true, Bool.and_false,
      Bool.false_eq_true, if_false]
    rfl
  | arc angleOk radiusOk curved verticesOk =>
    rw [tally_traceArc m (two_le_size_arcVertices verticesOk)]
    simp only [effectOf, tracesArc, angleOk, radiusOk, curved, Bool.not_false, Bool.and_true]
  | note written => rw [effectOf_of_noteOf written, tally_placeNote hclosed]
  | @marker label _ p text written =>
    rw [effectOf_of_noteOf written]
    exact tally_placeNote (m := m.onCanvas (·.onDrawing (·.addMarker p label))) hclosed text line

end Machine

/-! ## Commands -/

namespace Visit

/-- Whether the comments above a command are pinned to the point that it is about to make. -/
def pins (v : Visit) : Bool := v.command.kind.makesPoint && !v.placedAbove.isEmpty

/-- Whether comments are pinned to the point of an arc that has no angle or no radius, and so makes no
point. -/
def pinsInVain (v : Visit) : Bool :=
  match v.command.action with
  | .arc e f => !v.before.tracesArc e f && !v.placedAbove.isEmpty
  | _ => false

theorem tally_ready (v : Visit) :
    v.ready.drawing.tally =
      if v.pins then v.before.drawing.tally.pin else v.before.drawing.tally := by
  have hempty : ∀ line, (v.before.canvas.queue.placements line).isEmpty =
      (v.before.canvas.queue.upTo line).isEmpty := by
    intro line
    simp [CommentQueue.placements, CommentQueue.upTo]
  show (v.before.canvas.beforeCommand v.command.kind v.command.line v.before.turtle.penDown
    v.before.turtle.position).drawing.tally = _
  rw [Canvas.beforeCommand_eq, pins, placedAbove]
  split
  · rw [Drawing.tally_placeBefore, hempty]
    rfl
  · simp [Machine.drawing]

theorem pins_of_pinsInVain {v : Visit} (h : v.pinsInVain = true) : v.pins = true := by
  obtain ⟨⟨action, line⟩, before⟩ := v
  cases action with
  | arc e f => exact (Bool.and_eq_true_iff.mp h).2
  | _ => cases h

theorem effectOf_of_pins {v : Visit} (h : v.pins = true) (hvain : v.pinsInVain = false) :
    v.before.effectOf v.command.action = .trace ∨ v.before.effectOf v.command.action = .arc := by
  obtain ⟨hmakes, habove⟩ := Bool.and_eq_true_iff.mp h
  have hd : v.before.turtle.penDown = true := by
    by_contra hup
    simp [placedAbove, hup] at habove
  obtain ⟨⟨action, line⟩, before⟩ := v
  cases action with
  | arc e f =>
    have hcurved : before.tracesArc e f = true := by
      by_contra hflat
      simp [pinsInVain, hflat, habove] at hvain
    exact .inr (by simpa [Machine.effectOf, hcurved] using hd)
  | forward _ | back _ | setX _ | setY _ | setXY _ _ | home =>
    exact .inl ((Machine.effectOf_of_moves rfl rfl).trans (if_pos hd))
  | _ => cases hmakes

end Visit

theorem Advance.tally {limits : Limits} {v : Visit} {m : Machine} (h : Advance limits v m)
    (hclosed : v.before.PenUpClosed) :
    m.drawing.tally = (v.before.effectOf v.command.action).apply v.ready.drawing.tally := by
  obtain hc | ⟨silent, still, trace, rfl⟩ := h.cases
  · exact hc.tally (Visit.penUpClosed_ready hclosed)
  · rw [Machine.effectOf_of_still silent still]
    rfl

/-! ## Two runs -/

namespace Machine

/-- A run without comments and a run of the same commands with them, which has pinned comments in vain
`surplus` times. -/
structure Surplus (surplus : Nat) (bare m : Machine) : Prop where
  same : bare.SameCourse m
  waiting : bare.canvas.queue.waiting = []
  exceeds : Tally.Exceeds surplus bare.drawing.tally m.drawing.tally

theorem SameCourse.effectOf_eq {m m' : Machine} (h : m.SameCourse m') (action : Action) :
    m.effectOf action = m'.effectOf action := by
  cases action with
  | arc e f =>
    unfold effectOf tracesArc
    rw [h.turtle, h.bindings]
  | _ => simp only [effectOf, h.turtle]

namespace Surplus

variable {limits : Limits} {k : Nat} {bare m bare' m' : Machine} {command : Command}

theorem advance (h : Surplus k bare m) (hbare : Advance limits ⟨command, bare⟩ bare')
    (hm : Advance limits ⟨command, m⟩ m') (hsame : bare'.SameCourse m') :
    Surplus (k + [(⟨command, m⟩ : Visit)].countP Visit.pinsInVain) bare' m' := by
  -- With no comment waiting, the run without comments carries out its action right where it is.
  have htakes := (hbare.places h.same.closed).takes
  have hwaiting : bare'.canvas.queue.waiting = [] :=
    (List.append_eq_nil_iff.mp (htakes.symm.trans h.waiting)).2
  have habove : (⟨command, bare⟩ : Visit).placedAbove = [] := by
    simp [Visit.placedAbove, CommentQueue.placements, h.waiting]
  have hready : (⟨command, bare⟩ : Visit).ready.drawing.tally = bare.drawing.tally := by
    simp [Visit.tally_ready, Visit.pins, habove]
  refine ⟨hsame, hwaiting, ?_⟩
  rw [hbare.tally h.same.closed, hm.tally h.same.closed', h.same.effectOf_eq, hready,
    Visit.tally_ready, List.countP_singleton]
  cases hpins : (⟨command, m⟩ : Visit).pins with
  | false =>
    have hvain : ¬ (⟨command, m⟩ : Visit).pinsInVain = true := fun hv => by
      simp [Visit.pins_of_pinsInVain hv] at hpins
    simp only [hvain, Bool.false_eq_true, if_false, Nat.add_zero]
    exact h.exceeds.apply _
  | true =>
    cases hvain : (⟨command, m⟩ : Visit).pinsInVain with
    | true => exact h.exceeds.pin.apply _
    | false => exact h.exceeds.apply_pin (Visit.effectOf_of_pins hpins hvain)

theorem startCommand (h : Surplus k bare m) (limits : Limits) (command : Command) :
    Step.Agree (fun _ => true) (fun _ => true)
      (Surplus (k + [(⟨command, m⟩ : Visit)].countP Visit.pinsInVain))
      (startCommand limits command bare) (startCommand limits command m) := by
  have hsame := h.same.startCommand limits command
  generalize hs : TurtleTrace.startCommand limits command bare = s at hsame
  generalize hs' : TurtleTrace.startCommand limits command m = s' at hsame
  cases hsame with
  | done hn => exact .done (h.advance (.done hs) (.done hs') hn)
  | enter frame body hn =>
    have hnext := h.advance (.enter 0 hs) (.enter 0 hs') (SameCourse.respects.record hn _)
    exact .enter frame body ⟨hn, hnext.waiting, hnext.exceeds⟩
  | failed failure hn => exact .left rfl _ _
  | left he => cases he
  | right he => cases he

theorem record (h : Surplus k bare m) (event : Event) :
    Surplus k (bare.record event) (m.record event) :=
  ⟨SameCourse.respects.record h.same event, h.waiting, h.exceeds⟩

end Surplus

theorem surplus_start (resolution : Int) (comments : List Comment) :
    Surplus 0 (start resolution []) (start resolution comments) :=
  ⟨sameCourse_start resolution [] comments, rfl, Nat.le_refl _, .inl ⟨rfl, Nat.le_refl _⟩⟩

end Machine

/-- Without the comments a run draws no more polygons, and with them at most one more for each time that
comments stand in front of an arc without angle or radius. -/
theorem drawn_bounds_of_comments {limits : Limits} {resolution : Int} {commands : List Command}
    {comments : List Comment} {m : Machine}
    (h : execute limits resolution commands comments = .done m) :
    ∃ bare, execute limits resolution commands [] = .done bare ∧
      bare.drawing.drawn ≤ m.drawing.drawn ∧
      m.drawing.drawn ≤ bare.drawing.drawn +
        (journal limits commands (.start resolution comments)).countP Visit.pinsInVain := by
  obtain ⟨n, hrun, rfl⟩ := execute_eq_done h
  -- The first comparison shows that both runs come to their end, the second what they have drawn then.
  have hsame := (Machine.sameCourse_start resolution [] comments).runCommands limits commands
  have hsurplus := agree_runCommands_marked Visit.pinsInVain (R := Machine.Surplus)
    (fun command _ _ _ hk => Machine.Surplus.startCommand hk limits command)
    (fun event _ _ _ hk => hk.record event) commands (Machine.surplus_start resolution comments)
  rw [hrun] at hsame hsurplus
  generalize hbare : runCommands limits commands (.start resolution []) = o at hsame hsurplus
  cases hsame with
  | @done b _ hn =>
    cases hsurplus with
    | done hk =>
      have hfinal := hk.exceeds.final
      rw [Nat.zero_add] at hfinal
      refine ⟨b.finish, by simp only [execute, hbare], ?_⟩
      have hb : b.finish.drawing.drawn = b.drawing.tally.final := b.canvas.drawn_finish
      have hm : n.finish.drawing.drawn = n.drawing.tally.final := n.canvas.drawn_finish
      rw [hb, hm]
      exact hfinal
  | left he => cases he

theorem drawn_bounds_of_mixed_run :
    ∃ m, execute {} 40
        [⟨.setX (.number 3), 2⟩, ⟨.penUp, 4⟩, ⟨.penDown, 5⟩, ⟨.arc (.number 0) (.number 5), 7⟩]
        [⟨"# line".toList, 1, none⟩, ⟨"# pen".toList, 3, none⟩, ⟨"# arc".toList, 6, none⟩] =
          .done m ∧
      ∃ bare, execute {} 40
        [⟨.setX (.number 3), 2⟩, ⟨.penUp, 4⟩, ⟨.penDown, 5⟩, ⟨.arc (.number 0) (.number 5), 7⟩]
        [] = .done bare ∧
      bare.drawing.drawn ≤ m.drawing.drawn ∧ m.drawing.drawn ≤ bare.drawing.drawn + 1 := by
  refine (Outcome.exists_of_isDone (by decide +kernel)).imp fun m h => ⟨h, ?_⟩
  obtain ⟨bare, hbare, hle, hsurplus⟩ := drawn_bounds_of_comments h
  refine ⟨bare, hbare, hle, Nat.le_trans hsurplus (Nat.add_le_add_left ?_ _)⟩
  decide +kernel

/-- A comment in front of an arc without angle draws a polygon where the commands alone draw none. -/
theorem drawn_of_comment_before_flat_arc :
    let commented := execute {} 40 [⟨.arc (.number 0) (.number 5), 2⟩] [⟨"# c".toList, 1, none⟩]
    let bare := execute {} 40 [⟨.arc (.number 0) (.number 5), 2⟩] []
    commented.isDone = true ∧ bare.isDone = true ∧ commented.machine.drawing.drawn = 1 ∧
      bare.machine.drawing.drawn = 0 := by
  decide +kernel

end TurtleTrace
