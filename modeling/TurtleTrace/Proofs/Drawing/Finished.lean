import TurtleTrace.Proofs.Comments.Conservation
import TurtleTrace.Proofs.Drawing.Segments
import TurtleTrace.Proofs.Drawing.Strokes

/-!
# Finished polygons

A polygon that is finished is left as it is, and it is in order: one that carries comments alone has
some, and none of them at a point; any other has points; every slot is that of a point or the one
behind the last. A circle is noted only on a polygon that a full turn has traced. All this comes from
what an open polygon satisfies at any time, `Polygon.Sound`.

* `Polygon.Finished`: what a finished polygon satisfies.
* `Machine.FullTurn`: the arc that a circle comes from.
* `Drawing.Finishes`: a change that keeps the open polygon sound and finishes some polygons.
-/

namespace TurtleTrace

set_option autoImplicit false

theorem append_ne_empty {α : Type} {xs : Array α} {ys : List α} (h : xs ≠ #[] ∨ ys ≠ []) :
    xs ++ ys ≠ #[] := by
  intro hn
  have hlists := congrArg Array.toList hn
  rw [Array.toList_appendList, Array.toList_empty, List.append_eq_nil_iff,
    Array.toList_eq_nil_iff] at hlists
  obtain hx | hy := h
  · exact hx hlists.1
  · exact hy hlists.2

/-! ## Polygons -/

namespace Polygon

structure Finished (p : Polygon) : Prop where
  ofComments : p.commentOnly = true → p.slots = [] ∧ p.free ≠ #[]
  ofPoints : p.commentOnly = false → p.points ≠ #[]
  ofSlots : ∀ slot texts, (slot, texts) ∈ p.slots →
    0 ≤ slot ∧ slot ≤ p.points.size ∧ texts ≠ []

/-- What a polygon satisfies while it is open. One without points was opened for free comments. -/
structure Sound (p : Polygon) : Prop where
  ordered : p.Ordered
  nonneg : ∀ x ∈ p.pinned.toList, 0 ≤ x.1
  bare : p.points = #[] → p.pinned = #[] ∧ p.free ≠ #[]

theorem mem_groupSlots {xs : List (Int × Text)} {slot : Int} {texts : List Text}
    (h : (slot, texts) ∈ groupSlots xs) : texts ≠ [] ∧ ∃ text, (slot, text) ∈ xs := by
  induction xs generalizing texts with
  | nil => cases h
  | cons x xs ih =>
    obtain ⟨first, text⟩ := x
    have hlater : (slot, texts) ∈ groupSlots xs →
        texts ≠ [] ∧ ∃ text', (slot, text') ∈ (first, text) :: xs := by
      intro hmem
      obtain ⟨hne, text', ht⟩ := ih hmem
      exact ⟨hne, text', List.mem_cons_of_mem _ ht⟩
    unfold groupSlots at h
    split at h
    · rename_i next others groups hgroups
      rw [hgroups] at hlater
      split at h
      · obtain heq | h := List.mem_cons.mp h
        · cases heq
          exact ⟨List.cons_ne_nil _ _, text, List.mem_cons_self⟩
        · exact hlater (List.mem_cons_of_mem _ h)
      · obtain heq | h := List.mem_cons.mp h
        · cases heq
          exact ⟨List.cons_ne_nil _ _, text, List.mem_cons_self⟩
        · exact hlater h
    · cases List.mem_singleton.mp h
      exact ⟨List.cons_ne_nil _ _, text, List.mem_cons_self⟩

theorem nextSlot_le_size (p : Polygon) : p.nextSlot ≤ p.points.size := by
  unfold nextSlot
  split <;> omega

variable {p : Polygon}

theorem sound_of_pinned_eq_empty (hpinned : p.pinned = #[])
    (hfree : p.points = #[] → p.free ≠ #[]) : p.Sound :=
  ⟨ordered_of_pinned_eq_empty hpinned, by simp [hpinned], fun hn => ⟨hpinned, hfree hn⟩⟩

theorem Sound.addPoint (h : p.Sound) (point : Point) : (p.addPoint point).Sound :=
  ⟨h.ordered.addPoint point, h.nonneg, fun hn => absurd hn (by simp [Polygon.addPoint])⟩

theorem Sound.pinHere (h : p.Sound) (texts : List Text) (hpoints : p.points ≠ #[]) :
    (p.pinHere texts).Sound := by
  refine ⟨(h.ordered.pinHere texts).1, fun x hx => ?_, fun hn => absurd hn hpoints⟩
  have hx' : x ∈ p.pinned.toList ++ texts.map fun text => (p.nextSlot, text) := by
    simpa [Polygon.pinHere, pin] using hx
  obtain hx | hx := List.mem_append.mp hx'
  · exact h.nonneg x hx
  · obtain ⟨text, -, rfl⟩ := List.mem_map.mp hx
    exact p.nextSlot_nonneg

theorem Sound.addComments (h : p.Sound) (texts : List Text) : (p.addComments texts).Sound := by
  unfold Polygon.addComments
  split
  · rename_i hs
    have hpinned : p.pinned = #[] := by simpa using (Bool.and_eq_true_iff.mp hs).2
    exact sound_of_pinned_eq_empty hpinned fun hn => append_ne_empty (.inl (h.bare hn).2)
  · rename_i hs
    refine h.pinHere texts fun hn => hs ?_
    simp [isSeed, hn, (h.bare hn).1]

theorem Sound.setPoints (h : p.Sound) (hseed : p.isSeed = true) {points : Array Point}
    (hpoints : points ≠ #[]) : { p with points := points }.Sound :=
  ⟨h.ordered.setPoints hseed points, h.nonneg, fun hn => absurd hn hpoints⟩

theorem Sound.finished (h : p.Sound) {commentOnly : Bool} (circle : Option Circle)
    (honly : commentOnly = true → p.pinned = #[] ∧ p.free ≠ #[]) :
    { p with commentOnly := commentOnly || p.points.isEmpty, circle := circle }.Finished := by
  refine ⟨fun hc => ?_, fun hc hn => ?_, fun slot texts hmem => ?_⟩
  · have hbare : p.pinned = #[] ∧ p.free ≠ #[] := by
      obtain hc | hn := Bool.or_eq_true_iff.mp hc
      · exact honly hc
      · exact h.bare (Array.isEmpty_iff.mp hn)
    refine ⟨?_, hbare.2⟩
    show groupSlots (sortOn Prod.fst p.pinned.toList) = []
    rw [hbare.1]
    rfl
  · have hempty : p.points.isEmpty = true := Array.isEmpty_iff.mpr hn
    simp only [hempty, Bool.or_true] at hc
    cases hc
  · obtain ⟨hne, text, htext⟩ := mem_groupSlots hmem
    have hpinned : (slot, text) ∈ p.pinned.toList := (sortOn_perm Prod.fst _).mem_iff.mp htext
    exact ⟨h.nonneg _ hpinned,
      Int.le_trans (h.ordered.upToNext _ hpinned) p.nextSlot_le_size, hne⟩

/-- A finished polygon that no circle is noted on. -/
def Plain (p : Polygon) : Prop := p.Finished ∧ p.circle = none

end Polygon

/-! ## Drawings -/

namespace Drawing

/-- The open polygon, if there is one, is sound. -/
def Sound (d : Drawing) : Prop := ∀ p, d.current = some p → p.Sound

/-- The finished polygons stay as they are, and those that come behind them have a property. -/
def Grows (P : Polygon → Prop) (d d' : Drawing) : Prop :=
  ∃ added, d'.polygons.toList = d.polygons.toList ++ added ∧ ∀ p ∈ added, P p

/-- A change that keeps the open polygon sound, and after which the polygons that it finishes have a
property. -/
def Finishes (P : Polygon → Prop) (d d' : Drawing) : Prop := d.Sound → d'.Sound ∧ d.Grows P d'

variable {P Q : Polygon → Prop} {d d' d'' : Drawing}

theorem grows_of_eq (h : d'.polygons = d.polygons) : d.Grows P d' :=
  ⟨[], by rw [h, List.append_nil], nofun⟩

theorem Grows.trans (h : d.Grows P d') (k : d'.Grows P d'') : d.Grows P d'' := by
  obtain ⟨added, hd, hadded⟩ := h
  obtain ⟨more, hd', hmore⟩ := k
  refine ⟨added ++ more, by rw [hd', hd, List.append_assoc], fun p hp => ?_⟩
  obtain hp | hp := List.mem_append.mp hp
  · exact hadded p hp
  · exact hmore p hp

theorem Grows.isPrefix (h : d.Grows P d') : d.polygons.toList <+: d'.polygons.toList := by
  obtain ⟨added, hd, -⟩ := h
  rw [hd]
  exact List.prefix_append _ _

theorem Grows.imp (h : d.Grows P d') (hPQ : ∀ p, P p → Q p) : d.Grows Q d' := by
  obtain ⟨added, hd, hadded⟩ := h
  exact ⟨added, hd, fun p hp => hPQ p (hadded p hp)⟩

theorem Finishes.trans (h : d.Finishes P d') (k : d'.Finishes P d'') : d.Finishes P d'' := by
  intro hs
  obtain ⟨hs', hg⟩ := h hs
  obtain ⟨hs'', hg'⟩ := k hs'
  exact ⟨hs'', hg.trans hg'⟩

theorem Finishes.imp (h : d.Finishes P d') (hPQ : ∀ p, P p → Q p) : d.Finishes Q d' :=
  fun hs => (h hs).imp_right (·.imp hPQ)

theorem finishes_of_sound (hp : d'.polygons = d.polygons) (hs : d.Sound → d'.Sound) :
    d.Finishes P d' :=
  fun h => ⟨hs h, grows_of_eq hp⟩

theorem finishes_of_eq (hp : d'.polygons = d.polygons) (hc : d'.current = d.current) :
    d.Finishes P d' :=
  finishes_of_sound hp fun h p hd => h p (hc ▸ hd)

/-! ### Changes of the open polygon -/

theorem sound_onCurrent {f : Polygon → Polygon} (h : ∀ p, d.current = some p → (f p).Sound) :
    (d.onCurrent f).Sound := by
  intro q hq
  obtain ⟨p, hp, rfl⟩ := Option.map_eq_some_iff.mp hq
  exact h p hp

/-- A change of the open polygon, or of an empty one that is opened for it. -/
theorem sound_onTarget {f : Polygon → Polygon} (hfresh : (f .empty).Sound)
    (hopen : ∀ p, d.current = some p → (f p).Sound) : (d.ensureTarget.onCurrent f).Sound := by
  refine sound_onCurrent fun p hp => ?_
  unfold ensureTarget at hp
  split at hp
  · cases hp
    exact hfresh
  · exact hopen p hp

theorem sound_ensurePolygon (h : d.Sound) (position : Point) :
    ∀ p, (d.ensurePolygon position).current = some p → p.Sound ∧ p.points ≠ #[] := by
  intro p hp
  unfold ensurePolygon at hp
  split at hp
  · cases hp
    exact ⟨Polygon.sound_of_pinned_eq_empty rfl nofun, nofun⟩
  · rename_i q hq
    split at hp
    · cases hp
      exact ⟨(h q hq).addPoint position, by simp [Polygon.addPoint]⟩
    · rename_i hne
      rw [hq] at hp
      cases hp
      exact ⟨h _ hq, fun hn => hne (Array.isEmpty_iff.mpr hn)⟩

theorem finishes_ensurePolygon (d : Drawing) (position : Point) :
    d.Finishes P (d.ensurePolygon position) :=
  finishes_of_sound (Keeps.ensurePolygon d).polygons
    fun h p hp => (sound_ensurePolygon h position p hp).1

theorem finishes_addPoint (d : Drawing) (point position : Point) :
    d.Finishes P (d.addPoint point position) :=
  finishes_of_sound (Keeps.ensurePolygon d).polygons fun h => sound_onCurrent fun p hp =>
    (sound_ensurePolygon h position p hp).1.addPoint point

theorem finishes_pinComments (d : Drawing) (texts : List Text) (position : Point) :
    d.Finishes P (d.pinComments texts position) := by
  refine finishes_of_sound (Keeps.pinComments texts d).polygons fun h => sound_onCurrent ?_
  intro p hp
  obtain ⟨hs, hpoints⟩ := sound_ensurePolygon h position p hp
  exact hs.pinHere texts hpoints

theorem finishes_addComments (d : Drawing) {texts : List Text} (htexts : texts ≠ []) :
    d.Finishes P (d.addComments texts) := by
  have hkeeps : Keeps .origin d (d.addComments texts) := .addComments texts d
  refine finishes_of_sound hkeeps.polygons fun h => sound_onTarget ?_ ?_
  · refine Polygon.sound_of_pinned_eq_empty rfl fun _ => ?_
    simpa [Polygon.addComments, Polygon.empty, Polygon.isSeed] using htexts
  · exact fun p hp => (h p hp).addComments texts

theorem finishes_place (d : Drawing) (texts : List Text) : d.Finishes P (d.place texts) := by
  unfold place
  split
  · exact finishes_of_eq rfl rfl
  · rename_i hne
    exact finishes_addComments d fun hn => hne (List.isEmpty_iff.mpr hn)

theorem finishes_placeBefore (d : Drawing) (texts : List Text) (kind : Kind) (position : Point) :
    d.Finishes P (d.placeBefore texts kind position) := by
  unfold placeBefore
  split
  · exact finishes_of_eq rfl rfl
  · rename_i hne
    split
    · exact finishes_pinComments d texts position
    · exact finishes_addComments d fun hn => hne (List.isEmpty_iff.mpr hn)

/-! ### Finishing -/

theorem finishes_finishPolygon {commentOnly : Bool} {circle : Option Circle}
    (h : ∀ p, d.current = some p → p.Sound →
      P { p with commentOnly := commentOnly || p.points.isEmpty, circle := circle }) :
    d.Finishes P (d.finishPolygon commentOnly circle) := by
  intro hs
  unfold finishPolygon
  split
  · exact ⟨hs, grows_of_eq rfl⟩
  · rename_i p hp
    refine ⟨nofun, [_], Array.toList_push, fun q hq => ?_⟩
    obtain rfl := List.mem_singleton.mp hq
    exact h p hp (hs p hp)

theorem finishes_plain {commentOnly : Bool} (honly : commentOnly = true →
    ∀ p, d.current = some p → p.pinned = #[] ∧ p.free ≠ #[]) :
    d.Finishes Polygon.Plain (d.finishPolygon commentOnly none) :=
  finishes_finishPolygon fun p hp hs => ⟨hs.finished none fun hc => honly hc p hp, rfl⟩

/-- Opening a polygon at its first point leaves its comments alone. -/
theorem comments_ensurePolygon {p : Polygon} (h : d.current = some p) (position : Point) :
    ∃ q, (d.ensurePolygon position).current = some q ∧ q.pinned = p.pinned ∧ q.free = p.free := by
  unfold ensurePolygon
  rw [h]
  by_cases hpoints : p.points.isEmpty = true
  · exact ⟨p.addPoint position, by simp only [hpoints, if_true], rfl, rfl⟩
  · exact ⟨p, by simp only [hpoints]; exact h, rfl, rfl⟩

end Drawing

/-! ## Canvases -/

namespace Canvas

variable {P : Polygon → Prop}

theorem finishes_flushUpTo (c : Canvas) (line : Int) :
    c.drawing.Finishes P (c.flushUpTo line).drawing :=
  Drawing.finishes_place _ _

theorem finishes_beforeCommand (c : Canvas) (kind : Kind) (line : Int) (penDown : Bool)
    (position : Point) :
    c.drawing.Finishes P (c.beforeCommand kind line penDown position).drawing := by
  unfold beforeCommand
  split
  · exact Drawing.finishes_of_eq rfl rfl
  · exact Drawing.finishes_placeBefore _ _ kind position

theorem finishes_closeBeforeArc (c : Canvas) (line : Int) :
    c.drawing.Finishes Polygon.Plain (Machine.closeBeforeArc c line).drawing := by
  unfold Machine.closeBeforeArc
  split
  · exact Drawing.finishes_of_eq rfl rfl
  · split
    · exact Drawing.finishes_of_eq rfl rfl
    · exact (c.finishes_flushUpTo (line - 1)).trans (Drawing.finishes_plain nofun)

/-- The polygon of an arc has the points and the circle of the arc; one that is finished before it has
no circle. -/
theorem finishes_arcPolygon (c : Canvas) (line : Int) {points : Array Point}
    (hpoints : points ≠ #[]) (circle : Option Circle) :
    c.drawing.Finishes (fun p => p.Plain ∨ p.Finished ∧ p.points = points ∧ p.circle = circle)
      (Machine.arcPolygon c line points circle).drawing := by
  obtain ⟨-, -, -, hseed⟩ := places_closeBeforeArc c line
  refine ((c.finishes_closeBeforeArc line).imp fun _ => .inl).trans ?_
  unfold Machine.arcPolygon
  generalize Machine.closeBeforeArc c line = c₁ at hseed
  let d := c₁.drawing.ensureTarget.onCurrent fun polygon => { polygon with points := points }
  have hd : c₁.drawing.Finishes
      (fun p => p.Plain ∨ p.Finished ∧ p.points = points ∧ p.circle = circle) d := by
    have hkeeps : Keeps .origin c₁.drawing c₁.drawing.ensureTarget := .ensureTarget _
    refine Drawing.finishes_of_sound hkeeps.polygons fun h => Drawing.sound_onTarget ?_ ?_
    · exact Polygon.sound_of_pinned_eq_empty rfl fun hn => absurd hn hpoints
    · exact fun p hp => (h p hp).setPoints (hseed p hp) hpoints
  refine hd.trans ((Drawing.finishes_place d (c₁.queue.upTo line)).trans ?_)
  -- Comments leave the points alone, so the polygon is finished with those of the arc.
  obtain ⟨p, hp, hsame⟩ : ∃ p, d.current = some p ∧ p.points = points := by
    obtain ⟨q, hq⟩ := Option.ne_none_iff_exists'.mp c₁.drawing.current_ensureTarget
    exact ⟨_, by simp only [d, Drawing.onCurrent, hq, Option.map_some]; rfl, rfl⟩
  obtain ⟨q, hq, hplaced⟩ := Machine.points_place hp (c₁.queue.upTo line)
  refine Drawing.finishes_finishPolygon fun r hr hs => .inr ⟨?_, ?_, rfl⟩
  · exact hs.finished circle fun hc => absurd hc Bool.false_ne_true
  · rw [hq] at hr
    cases hr
    exact hplaced.trans hsame

/-- A note that is written with the pen up is the last free comment of a polygon of its own. -/
theorem finishes_loneNote (c : Canvas) (line : Int) (text : Text) (position : Point)
    (hc : c.drawing.current = none) :
    c.drawing.Finishes Polygon.Plain ((c.flushUpTo (line - 1)).onDrawing fun d =>
      ((d.ensureTarget.onCurrent fun polygon =>
        { polygon with free := polygon.free.push text }).ensurePolygon position).finishPolygon
          true none).drawing := by
  have hpinned := pinned_flushUpTo c (line - 1) hc
  refine (c.finishes_flushUpTo (line - 1)).trans ?_
  generalize c.flushUpTo (line - 1) = c₁ at hpinned
  let noted (polygon : Polygon) : Polygon := { polygon with free := polygon.free.push text }
  let d := c₁.drawing.ensureTarget.onCurrent noted
  have hfree (p : Polygon) : (noted p).free ≠ #[] := Array.push_ne_empty
  have htarget : ∀ p, c₁.drawing.ensureTarget.current = some p → p.pinned = #[] := by
    intro p hp
    unfold Drawing.ensureTarget at hp
    split at hp
    · cases hp
      rfl
    · exact hpinned p hp
  have hd : c₁.drawing.Finishes Polygon.Plain d := by
    have hkeeps : Keeps .origin c₁.drawing c₁.drawing.ensureTarget := .ensureTarget _
    refine Drawing.finishes_of_sound hkeeps.polygons fun _ => Drawing.sound_onCurrent ?_
    exact fun p hp => Polygon.sound_of_pinned_eq_empty (htarget p hp) fun _ => hfree p
  refine (hd.trans (Drawing.finishes_ensurePolygon d position)).trans ?_
  refine Drawing.finishes_plain fun _ r hr => ?_
  obtain ⟨p, hp⟩ := Option.ne_none_iff_exists'.mp c₁.drawing.current_ensureTarget
  have hnoted : d.current = some (noted p) := by simp only [d, Drawing.onCurrent, hp, Option.map_some]
  obtain ⟨q, hq, hqpinned, hqfree⟩ := Drawing.comments_ensurePolygon hnoted position
  obtain rfl : q = r := Option.some.inj (hq.symm.trans hr)
  exact ⟨hqpinned.trans (htarget p hp), hqfree ▸ hfree p⟩

/-- Once the comments that are left have been placed, a seed that nothing is pinned to has free
comments, unless there were none to place and none before. -/
theorem free_flushAll {c : Canvas} (htouched : ∀ p, c.drawing.current = some p →
      p.isSeed = true → p.free = #[] → p.pinned = #[] → c.queue.waiting ≠ [])
    {p : Polygon} (hp : c.flushAll.drawing.current = some p) (hseed : p.isSeed = true)
    (hpinned : p.pinned = #[]) : p.free ≠ #[] := by
  simp only [flushAll, Drawing.place] at hp
  split at hp
  · rename_i hnone
    have hq : c.queue.waiting = [] := by simpa [CommentQueue.remaining] using hnone
    exact fun hfree => htouched p hp hseed hfree hpinned hq
  · rename_i hsome
    have htexts : c.queue.remaining ≠ [] := fun hn => hsome (List.isEmpty_iff.mpr hn)
    obtain ⟨q, -, rfl⟩ := Option.map_eq_some_iff.mp hp
    unfold Polygon.addComments at hpinned ⊢
    split
    · exact append_ne_empty (.inr htexts)
    · rename_i hs
      rw [if_neg hs] at hpinned
      exact absurd hpinned (append_ne_empty (.inr (by simpa using htexts)))

theorem finishes_finish (c : Canvas) : c.drawing.Finishes Polygon.Plain c.finish.drawing := by
  obtain ⟨p, -, -, -, -, -, hfinish⟩ | ⟨untraced, htouched, huntraced, hfinish⟩ := c.finish_cases
  · rw [hfinish]
    exact Drawing.finishes_of_sound rfl fun _ _ hnone => (by cases hnone)
  · rw [hfinish]
    have hflush : c.drawing.Finishes Polygon.Plain c.flushAll.drawing := Drawing.finishes_place _ _
    refine hflush.trans (Drawing.finishes_plain fun hu p hp => ?_)
    rw [huntraced, hp, Option.any_some] at hu
    obtain ⟨hseed, hempty⟩ := Bool.and_eq_true_iff.mp hu
    have hpinned : p.pinned = #[] := Array.isEmpty_iff.mp hempty
    exact ⟨hpinned, free_flushAll htouched hp hseed hpinned⟩

end Canvas

/-! ## One command -/

namespace Machine

/-- The arc that a circle comes from: a full turn around the turtle with the pen down, which has traced
one segment for each point of the polygon. -/
structure FullTurn (m : Machine) (action : Action) (m' : Machine) (p : Polygon) (circle : Circle) :
    Prop where
  down : m.turtle.penDown = true
  arc : ∃ e f angle, action = .arc e f ∧ e.evaluate m.bindings = .ok angle ∧
    (angle.abs == 360) = true ∧ f.evaluate m.bindings = .ok circle.radius
  radius : (circle.radius == 0) = false
  centre : circle.centre = m.turtle.position
  resolution : circle.resolution = m.turtle.resolution
  segments : m'.drawing.segments.size = m.drawing.segments.size + p.points.size

/-- A polygon that an action has finished; a circle on it comes from that action. -/
def FinishedBy (m : Machine) (action : Action) (m' : Machine) (p : Polygon) : Prop :=
  p.Finished ∧ ∀ circle, p.circle = some circle → FullTurn m action m' p circle

variable {m m' : Machine} {line : Int} {action : Action} {P : Polygon → Prop}

theorem finishedBy_of_plain (p : Polygon) (h : p.Plain) : FinishedBy m action m' p := by
  refine ⟨h.1, fun circle hc => ?_⟩
  rw [h.2] at hc
  cases hc

theorem finishes_lineTo (m : Machine) (p : Point) (line : Int) :
    m.drawing.Finishes P (m.lineTo p line).drawing := by
  have hsegment : m.drawing.Finishes P
      (m.drawing.addSegment m.turtle.position p line m.turtle.penDown none) :=
    Drawing.finishes_of_eq rfl rfl
  simp only [lineTo, drawing, Canvas.onDrawing]
  split
  · exact hsegment.trans (Drawing.finishes_addPoint _ p _)
  · exact hsegment

theorem finishes_penUp (m : Machine) (line : Int) :
    m.drawing.Finishes Polygon.Plain (m.penUp line).drawing := by
  unfold penUp
  split
  · exact (m.canvas.finishes_flushUpTo line).trans (Drawing.finishes_plain nofun)
  · exact Drawing.finishes_of_eq rfl rfl

theorem finishes_penDown (m : Machine) (line : Int) :
    m.drawing.Finishes P (m.penDown line).drawing := by
  unfold penDown
  split
  · exact Drawing.finishes_of_eq rfl rfl
  · exact (m.canvas.finishes_flushUpTo line).trans (Drawing.finishes_ensurePolygon _ _)

theorem finishes_placeNote (hpen : m.PenUpClosed) (text : Text) (line : Int) :
    m.drawing.Finishes Polygon.Plain (m.placeNote text line).drawing := by
  unfold placeNote
  by_cases hd : m.turtle.penDown = true
  · simp only [hd, if_true]
    exact Drawing.finishes_pinComments _ [text] _
  · simp only [hd]
    exact Canvas.finishes_loneNote _ line text _ (hpen (by simpa using hd))

/-- An arc logs as many segments as it has vertices behind the first. -/
theorem size_segments_traceArc (m : Machine) (vertices : Array Point) (angle radius : Float)
    (line : Int) :
    (m.traceArc vertices angle radius line).drawing.segments.size =
      m.drawing.segments.size + (vertices.extract 1 vertices.size).size := by
  have hchain : (arcChain line m.turtle.penDown (m.turtle.arcGroups + 1 : Nat)
      m.drawing.counter vertices.toList).length = vertices.size - 1 := by
    simpa using congrArg List.length (map_stop_arcChain line m.turtle.penDown
      (m.turtle.arcGroups + 1 : Nat) m.drawing.counter vertices.toList)
  rw [Drawing.segments_of_log (m.log_traceArc vertices angle radius line), ← Array.length_toList,
    segments_addArcSegments, List.length_append, Array.length_toList, hchain, Array.size_extract,
    Nat.min_self]

theorem finishes_traceArc (m : Machine) {vertices : Array Point} (hv : 2 ≤ vertices.size)
    (angle radius : Float) (line : Int) :
    m.drawing.Finishes
      (fun p => p.Plain ∨ p.Finished ∧ m.turtle.penDown = true ∧
        p.points = vertices.extract 1 vertices.size ∧
        p.circle = if angle.abs == 360 then
          some ⟨m.turtle.position, radius, m.turtle.resolution⟩ else none)
      (m.traceArc vertices angle radius line).drawing := by
  have hpoints : vertices.extract 1 vertices.size ≠ #[] := by
    intro hn
    have hzero := congrArg Array.size hn
    rw [Array.size_extract, Nat.min_self, Array.size_empty] at hzero
    omega
  let c := m.canvas.onDrawing
    (addArcSegments line m.turtle.penDown (m.turtle.arcGroups + 1 : Nat) vertices.toList)
  have hlogged {P : Polygon → Prop} : m.drawing.Finishes P c.drawing :=
    Drawing.finishes_of_eq (polygons_addArcSegments ..) (current_addArcSegments ..)
  by_cases hd : m.turtle.penDown = true
  · have hdrawing : (m.traceArc vertices angle radius line).drawing =
        (arcPolygon c line (vertices.extract 1 vertices.size)
          (if angle.abs == 360 then some ⟨m.turtle.position, radius, m.turtle.resolution⟩
            else none)).drawing := by
      simp only [drawing, traceArc, Turtle.openArcGroup, hd, if_true, c]
    rw [hdrawing]
    refine hlogged.trans ((c.finishes_arcPolygon line hpoints _).imp fun p hp => ?_)
    obtain hplain | ⟨hfinished, hrest⟩ := hp
    · exact .inl hplain
    · exact .inr ⟨hfinished, hd, hrest⟩
  · have hdrawing : (m.traceArc vertices angle radius line).drawing = c.drawing := by
      simp only [drawing, traceArc, Turtle.openArcGroup, hd, Bool.false_eq_true, if_false, c]
    rw [hdrawing]
    exact hlogged

/-- What a command finishes, it finishes in order. -/
theorem Change.finishes (h : m.Change line action m') (hpen : m.PenUpClosed) :
    m.drawing.Finishes (FinishedBy m action m') m'.drawing := by
  cases h with
  | skip | bind | steer | flatArc => exact Drawing.finishes_of_eq rfl rfl
  | move _ p => exact finishes_lineTo m p line
  | home => exact finishes_lineTo m .origin line
  | penUp => exact (finishes_penUp m line).imp finishedBy_of_plain
  | penDown => exact finishes_penDown m line
  | @arc e f angle radius vertices angleOk radiusOk curved verticesOk =>
    refine (finishes_traceArc m (two_le_size_arcVertices verticesOk) angle radius line).imp ?_
    rintro p (hplain | ⟨hfinished, hdown, hpoints, hcircle⟩)
    · exact finishedBy_of_plain p hplain
    · refine ⟨hfinished, fun circle hc => ?_⟩
      rw [hcircle] at hc
      split at hc
      · rename_i hfull
        cases hc
        refine ⟨hdown, ⟨e, f, angle, rfl, angleOk, hfull, radiusOk⟩,
          (Bool.or_eq_false_iff.mp curved).2, rfl, rfl, ?_⟩
        rw [hpoints]
        exact m.size_segments_traceArc vertices angle radius line
      · cases hc
  | note => exact (finishes_placeNote hpen _ line).imp finishedBy_of_plain
  | @marker label _ p text _ =>
    let marked := m.onCanvas (·.onDrawing (·.addMarker p label))
    have hmarked : m.drawing.Finishes Polygon.Plain marked.drawing :=
      Drawing.finishes_of_eq rfl rfl
    have hclosed : marked.PenUpClosed := hpen
    exact (hmarked.trans (finishes_placeNote hclosed text line)).imp finishedBy_of_plain

end Machine

variable {limits : Limits} {v : Visit} {m : Machine}

theorem Advance.finishes (h : Advance limits v m) (hpen : v.before.PenUpClosed) :
    v.before.drawing.Finishes (Machine.FinishedBy v.before v.command.action m) m.drawing := by
  have hready : v.before.drawing.Finishes (Machine.FinishedBy v.before v.command.action m)
      v.ready.drawing :=
    Canvas.finishes_beforeCommand _ v.command.kind v.command.line _ _
  refine hready.trans ?_
  obtain hc | ⟨-, -, trace, rfl⟩ := h.cases
  · refine (hc.finishes (Visit.penUpClosed_ready hpen)).imp fun p hp => ?_
    refine ⟨hp.1, fun circle hcircle => ?_⟩
    -- Placing the comments above the command leaves turtle, bindings and log alone.
    obtain ⟨down, arc, radius, centre, resolution, segments⟩ := hp.2 circle hcircle
    rw [Drawing.segments_of_log v.log_ready] at segments
    exact ⟨down, arc, radius, centre, resolution, segments⟩
  · exact Drawing.finishes_of_eq rfl rfl

end TurtleTrace
