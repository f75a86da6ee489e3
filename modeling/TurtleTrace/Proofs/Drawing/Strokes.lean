import Mathlib.Data.List.Forall2
import TurtleTrace.Proofs.Arc
import TurtleTrace.Proofs.Machine.Pen

/-!
# Every drawn segment belongs to one polygon

The segments that a run traces with the pen down are cut into blocks, one for each finished polygon
that is drawn, in order. A block is a straight stroke from each point of the polygon to the next, or
it is one whole arc.

* `Follows`: segments that go from point to point.
* `Traces`: how a block makes up the points of a polygon.
* `Accounted`: the segments of the finished polygons, and what is still to come.
* `Machine.Inked`: the invariant of runs; the open polygon ends where the turtle stands.
-/

namespace TurtleTrace

set_option autoImplicit false

/-! ## Blocks of segments -/

/-- The segments of a block go from each point of a row to the next. -/
def Follows (block : List Segment) (points : List Point) : Prop :=
  points.length = block.length + 1 ∧
    ∀ i s, block[i]? = some s → points[i]? = some s.start ∧ points[i + 1]? = some s.stop

/-- A block makes up the points of a polygon: as a straight stroke, or as all segments of one arc in
the log, of which the points are the ends. -/
inductive Traces (log block : List Segment) (points : List Point) : Prop where
  | stroke (straight : ∀ s ∈ block, s.arcGroup = none) (follows : Follows block points)
  | arc (group : Int) (nonempty : block ≠ []) (whole : block = log.filter (·.arcGroup == some group))
      (ends : points = block.map (·.stop))

theorem follows_single (p : Point) : Follows [] [p] := ⟨rfl, fun _ _ h => (by simp at h)⟩

theorem Follows.snoc {block : List Segment} {points : List Point} {s : Segment}
    (h : Follows block points) (hlast : points.getLast? = some s.start) :
    Follows (block ++ [s]) (points ++ [s.stop]) := by
  obtain ⟨hlength, hsteps⟩ := h
  refine ⟨by simp only [List.length_append, List.length_singleton]; omega, ?_⟩
  intro i t ht
  by_cases hi : i < block.length
  · rw [List.getElem?_append_left hi] at ht
    obtain ⟨hstart, hstop⟩ := hsteps i t ht
    rw [List.getElem?_append_left (by omega), List.getElem?_append_left (by omega)]
    exact ⟨hstart, hstop⟩
  · have hsize : i < (block ++ [s]).length := (List.getElem?_eq_some_iff.mp ht).1
    rw [List.length_append, List.length_singleton] at hsize
    have hb : i = block.length := by omega
    subst hb
    rw [List.getElem?_concat_length] at ht
    cases ht
    have hp : block.length + 1 = points.length := hlength.symm
    rw [List.getElem?_append_left (by omega), hp, List.getElem?_concat_length]
    rw [List.getLast?_eq_getElem?, hlength, Nat.add_sub_cancel] at hlast
    exact ⟨hlast, rfl⟩

theorem Follows.eq_nil {block : List Segment} {points : List Point} (h : Follows block points)
    (hsize : points.length ≤ 1) : block = [] := by
  have hlength := h.1
  exact List.length_eq_zero_iff.mp (by omega)

/-- A log may grow by segments of other arcs. -/
theorem Traces.append {log block more : List Segment} {points : List Point}
    (h : Traces log block points)
    (hnew : ∀ s ∈ more, ∀ t ∈ log, s.arcGroup = t.arcGroup → s.arcGroup = none) :
    Traces (log ++ more) block points := by
  cases h with
  | stroke straight follows => exact .stroke straight follows
  | arc group nonempty whole ends =>
    refine .arc group nonempty ?_ ends
    obtain ⟨t, ht⟩ := List.exists_mem_of_ne_nil block nonempty
    rw [whole, List.mem_filter] at ht
    have hgroup : t.arcGroup = some group := by simpa using ht.2
    have hmore : more.filter (·.arcGroup == some group) = [] := by
      rw [List.filter_eq_nil_iff]
      intro s hs he
      have hs' : s.arcGroup = some group := by simpa using he
      have hn := hnew s hs t ht.1 (by rw [hs', hgroup])
      rw [hs'] at hn
      cases hn
    rw [List.filter_append, hmore, List.append_nil]
    exact whole

/-! ## The segments of an arc -/

/-- The segments between neighbouring vertices, numbered from `id` on. -/
def arcChain (line : Int) (penDown : Bool) (group : Int) : Nat → List Point → List Segment
  | id, p :: q :: rest =>
    ⟨id, line, p, q, penDown, some group⟩ :: arcChain line penDown group (id + 1) (q :: rest)
  | _, _ => []

theorem segments_addArcSegments (line : Int) (penDown : Bool) (group : Int)
    (vertices : List Point) (d : Drawing) :
    (Machine.addArcSegments line penDown group vertices d).segments.toList =
      d.segments.toList ++ arcChain line penDown group d.counter vertices := by
  induction vertices generalizing d with
  | nil => exact (List.append_nil _).symm
  | cons p rest ih =>
    cases rest with
    | nil => exact (List.append_nil _).symm
    | cons q rest =>
      rw [Machine.addArcSegments, ih, arcChain]
      simp [Drawing.addSegment]

theorem mem_arcChain {line : Int} {penDown : Bool} {group : Int} {id : Nat} {vertices : List Point}
    {s : Segment} (h : s ∈ arcChain line penDown group id vertices) :
    s.line = line ∧ s.penDown = penDown ∧ s.arcGroup = some group := by
  induction vertices generalizing id with
  | nil => cases h
  | cons p rest ih =>
    cases rest with
    | nil => cases h
    | cons q rest =>
      rw [arcChain] at h
      obtain rfl | h := List.mem_cons.mp h
      · exact ⟨rfl, rfl, rfl⟩
      · exact ih h

theorem map_stop_arcChain (line : Int) (penDown : Bool) (group : Int) (id : Nat)
    (vertices : List Point) :
    (arcChain line penDown group id vertices).map (·.stop) = vertices.tail := by
  induction vertices generalizing id with
  | nil => rfl
  | cons p rest ih =>
    cases rest with
    | nil => rfl
    | cons q rest =>
      rw [arcChain, List.map_cons, ih]
      rfl

theorem arcChain_ne_nil {line : Int} {penDown : Bool} {group : Int} {id : Nat}
    {vertices : List Point} (h : 2 ≤ vertices.length) :
    arcChain line penDown group id vertices ≠ [] := by
  intro hn
  have htail := map_stop_arcChain line penDown group id vertices
  rw [hn] at htail
  have hlength := congrArg List.length htail
  rw [List.length_tail, List.map_nil, List.length_nil] at hlength
  omega

/-! ## The open polygon -/

/-- The block of the open polygon: nothing while it has no point, and otherwise a straight stroke along
its points up to the turtle. -/
def OpenStroke (position : Point) (block : List Segment) : Option Polygon → Prop
  | none => block = []
  | some p =>
    p.points = #[] ∧ block = [] ∨
      (∀ s ∈ block, s.arcGroup = none) ∧ Follows block p.points.toList ∧
        p.points.toList.getLast? = some position

theorem OpenStroke.eq_nil_of_isSeed {position : Point} {block : List Segment} {p : Polygon}
    (h : OpenStroke position block (some p)) (hs : p.isSeed = true) : block = [] := by
  obtain ⟨-, hb⟩ | ⟨-, hf, -⟩ := h
  · exact hb
  · have hsize : p.points.size ≤ 1 := by simpa [Polygon.isSeed] using hs
    exact hf.eq_nil (by simpa using hsize)

/-- Once the open polygon has a point, its stroke leads to the turtle. -/
theorem OpenStroke.ensurePolygon {position : Point} {block : List Segment} {d : Drawing}
    (h : OpenStroke position block d.current) :
    ∃ q, (d.ensurePolygon position).current = some q ∧ (∀ s ∈ block, s.arcGroup = none) ∧
      Follows block q.points.toList ∧ q.points.toList.getLast? = some position := by
  unfold Drawing.ensurePolygon
  cases hc : d.current with
  | none =>
    rw [hc] at h
    cases h
    exact ⟨_, rfl, fun _ h => (by cases h), follows_single position, rfl⟩
  | some p =>
    rw [hc] at h
    obtain ⟨hpoints, hb⟩ | ⟨hstraight, hfollows, hlast⟩ := h
    · subst hb
      refine ⟨p.addPoint position, by simp [hpoints], fun _ h => (by cases h), ?_, ?_⟩
      · simpa [Polygon.addPoint, hpoints] using follows_single position
      · simp [Polygon.addPoint, hpoints]
    · have hpoints : ¬ p.points.isEmpty = true := by
        intro he
        simp [Array.isEmpty_iff.mp he] at hlast
      exact ⟨p, by simp only [hpoints]; exact hc, hstraight, hfollows, hlast⟩

/-- A straight segment from the turtle to a new point of the open polygon goes on with its stroke. -/
theorem OpenStroke.addPoint {position : Point} {block : List Segment} {d : Drawing} {s : Segment}
    (h : OpenStroke position block d.current) (hstart : s.start = position)
    (hgroup : s.arcGroup = none) :
    OpenStroke s.stop (block ++ [s]) (d.addPoint s.stop position).current := by
  obtain ⟨q, hq, hstraight, hfollows, hlast⟩ := h.ensurePolygon
  rw [Drawing.addPoint, Drawing.onCurrent, hq, Option.map_some]
  refine .inr ⟨?_, ?_, ?_⟩
  · intro t ht
    obtain ht | ht := List.mem_append.mp ht
    · exact hstraight t ht
    · rw [List.mem_singleton.mp ht, hgroup]
  · rw [Polygon.addPoint, Array.toList_push]
    exact hfollows.snoc (hstart ▸ hlast)
  · simp [Polygon.addPoint]

/-- A change of the comments, or the opening of a polygon at the turtle: no segment is logged, no
polygon is finished, and the open stroke stays. -/
structure Keeps (position : Point) (d d' : Drawing) : Prop where
  segments : d'.segments = d.segments
  polygons : d'.polygons = d.polygons
  stroke : ∀ block, OpenStroke position block d.current → OpenStroke position block d'.current

namespace Keeps

variable {position : Point} {d d' d'' : Drawing}

theorem refl (d : Drawing) : Keeps position d d := ⟨rfl, rfl, fun _ h => h⟩

theorem trans (h : Keeps position d d') (k : Keeps position d' d'') : Keeps position d d'' :=
  ⟨k.segments.trans h.segments, k.polygons.trans h.polygons,
    fun block hb => k.stroke block (h.stroke block hb)⟩

theorem onCurrent {f : Polygon → Polygon} (h : ∀ p, (f p).points = p.points) (d : Drawing) :
    Keeps position d (d.onCurrent f) := by
  refine ⟨rfl, rfl, fun block hb => ?_⟩
  cases hc : d.current with
  | none => simpa [Drawing.onCurrent, hc] using hb
  | some p =>
    rw [hc] at hb
    simpa [Drawing.onCurrent, hc, OpenStroke, h p] using hb

theorem ensureTarget (d : Drawing) : Keeps position d d.ensureTarget := by
  unfold Drawing.ensureTarget
  split
  · rename_i hc
    refine ⟨rfl, rfl, fun block hb => ?_⟩
    rw [hc] at hb
    exact .inl ⟨rfl, hb⟩
  · exact refl d

theorem ensurePolygon (d : Drawing) : Keeps position d (d.ensurePolygon position) := by
  have hframe : (d.ensurePolygon position).segments = d.segments ∧
      (d.ensurePolygon position).polygons = d.polygons := by
    unfold Drawing.ensurePolygon
    split
    · exact ⟨rfl, rfl⟩
    · split <;> exact ⟨rfl, rfl⟩
  refine ⟨hframe.1, hframe.2, fun block hb => ?_⟩
  obtain ⟨q, hq, hstroke⟩ := hb.ensurePolygon
  rw [hq]
  exact .inr hstroke

theorem addComments (texts : List Text) (d : Drawing) : Keeps position d (d.addComments texts) := by
  refine (ensureTarget d).trans (onCurrent ?_ _)
  intro p
  unfold Polygon.addComments
  split <;> rfl

theorem pinComments (texts : List Text) (d : Drawing) :
    Keeps position d (d.pinComments texts position) :=
  (ensurePolygon d).trans (onCurrent (f := (·.pinHere texts)) (fun _ => rfl) _)

theorem place (texts : List Text) (d : Drawing) : Keeps position d (d.place texts) := by
  unfold Drawing.place
  split
  · exact refl d
  · exact addComments texts d

theorem placeBefore (texts : List Text) (kind : Kind) (d : Drawing) :
    Keeps position d (d.placeBefore texts kind position) := by
  unfold Drawing.placeBefore
  split
  · exact refl d
  · split
    · exact pinComments texts d
    · exact addComments texts d

end Keeps

/-! ## The account -/

/-- The segments with the pen down are those of the finished polygons that are drawn, in order, and
then `rest`; arc groups have been numbered up to `groups`. -/
structure Accounted (d : Drawing) (groups : Nat) (rest : List Segment) : Prop where
  blocks : ∃ blocks : List (List Segment),
    blocks.flatten ++ rest = d.segments.toList.filter (·.penDown) ∧
      List.Forall₂ (fun block (p : Polygon) => Traces d.segments.toList block p.points.toList) blocks
        (d.polygons.toList.filter (!·.commentOnly))
  numbered : ∀ s ∈ d.segments.toList, ∀ g, s.arcGroup = some g → g ≤ groups

namespace Accounted

variable {d d' : Drawing} {groups : Nat} {rest block : List Segment} {position : Point}

theorem of_eq (h : Accounted d groups rest) (hs : d'.segments = d.segments)
    (hp : d'.polygons = d.polygons) : Accounted d' groups rest := by
  obtain ⟨hb, hn⟩ := h
  rw [← hs, ← hp] at hb
  rw [← hs] at hn
  exact ⟨hb, hn⟩

/-- Segments that are logged behind the others are still to be accounted for if the pen is down. -/
theorem append {more : List Segment} {groups' : Nat} (h : Accounted d groups rest)
    (hs : d'.segments.toList = d.segments.toList ++ more) (hp : d'.polygons = d.polygons)
    (hgroups : groups ≤ groups')
    (hmore : ∀ s ∈ more, ∀ g, s.arcGroup = some g → (groups : Int) < g ∧ g ≤ groups') :
    Accounted d' groups' (rest ++ more.filter (·.penDown)) := by
  obtain ⟨⟨blocks, hflat, htraces⟩, hn⟩ := h
  refine ⟨⟨blocks, ?_, ?_⟩, ?_⟩
  · rw [hs, List.filter_append, ← hflat, List.append_assoc]
  · rw [hp]
    refine htraces.imp fun block p ht => ?_
    rw [hs]
    refine ht.append ?_
    intro s hsm t ht' he
    cases hg : s.arcGroup with
    | none => rfl
    | some g =>
      have hlow := (hmore s hsm g hg).1
      have hhigh := hn t ht' g (by rw [← he, hg])
      omega
  · intro s hsm g hg
    rw [hs, List.mem_append] at hsm
    obtain hsm | hsm := hsm
    · have hle := hn s hsm g hg
      omega
    · exact (hmore s hsm g hg).2

/-- A finished polygon takes its block with it; one that carries only comments has none. -/
theorem push {p : Polygon} (h : Accounted d groups (block ++ rest)) (hs : d'.segments = d.segments)
    (hp : d'.polygons = d.polygons.push p) (hempty : p.commentOnly = true → block = [])
    (htraces : p.commentOnly = false → Traces d.segments.toList block p.points.toList) :
    Accounted d' groups rest := by
  obtain ⟨⟨blocks, hflat, hall⟩, hn⟩ := h
  refine ⟨?_, by rw [hs]; exact hn⟩
  rw [hs, hp, Array.toList_push, List.filter_append]
  cases hc : p.commentOnly with
  | true =>
    refine ⟨blocks, ?_, ?_⟩
    · rw [hempty hc] at hflat
      exact hflat
    · simpa [hc] using hall
  | false =>
    refine ⟨blocks ++ [block], ?_, ?_⟩
    · rw [← hflat]
      simp
    · have hone : List.Forall₂
          (fun block (p : Polygon) => Traces d.segments.toList block p.points.toList)
          [block] ([p].filter (!·.commentOnly)) := by
        simpa [hc] using htraces hc
      exact List.rel_append hall hone

/-- Finishing the open polygon accounts for its stroke. -/
theorem finishPolygon (h : Accounted d groups (block ++ rest))
    (hopen : OpenStroke position block d.current) (commentOnly : Bool) (circle : Option Circle)
    (hseed : commentOnly = true → block = []) :
    Accounted (d.finishPolygon commentOnly circle) groups rest := by
  unfold Drawing.finishPolygon
  split
  · rename_i hc
    rw [hc] at hopen
    cases hopen
    exact h
  · rename_i p hc
    rw [hc] at hopen
    refine h.push rfl rfl ?_ ?_
    · intro honly
      obtain hb | hb := Bool.or_eq_true_iff.mp honly
      · exact hseed hb
      · exact hopen.eq_nil_of_isSeed (by simp [Polygon.isSeed, Array.isEmpty_iff.mp hb])
    · intro hdrawn
      obtain ⟨hpoints, -⟩ | ⟨straight, follows, -⟩ := hopen
      · simp [hpoints] at hdrawn
      · exact .stroke straight follows

/-- The segments of a new arc are all those of its group, and wait for their polygon if the pen is
down. -/
theorem addArc (h : Accounted d groups block) (line : Int) (penDown : Bool)
    (vertices : List Point) :
    let arcs := arcChain line penDown (groups + 1 : Nat) d.counter vertices
    let d' := Machine.addArcSegments line penDown (groups + 1 : Nat) vertices d
    Accounted d' (groups + 1) (block ++ if penDown then arcs else []) ∧
      arcs = d'.segments.toList.filter (·.arcGroup == some ((groups + 1 : Nat) : Int)) := by
  intro arcs d'
  have hsegments : d'.segments.toList = d.segments.toList ++ arcs := segments_addArcSegments ..
  refine ⟨?_, ?_⟩
  · have hlogged : Accounted d' (groups + 1) (block ++ arcs.filter (·.penDown)) := by
      refine h.append hsegments (Machine.polygons_addArcSegments ..) (Nat.le_succ _) ?_
      intro s hs g hg
      rw [(mem_arcChain hs).2.2] at hg
      cases hg
      exact ⟨by omega, by omega⟩
    have hfilter : arcs.filter (·.penDown) = if penDown then arcs else [] := by
      rw [List.filter_congr fun s hs => (mem_arcChain hs).2.1]
      cases penDown with
      | true => exact List.filter_true _
      | false => exact List.filter_false _
    rw [← hfilter]
    exact hlogged
  · have hold : d.segments.toList.filter (·.arcGroup == some ((groups + 1 : Nat) : Int)) = [] := by
      rw [List.filter_eq_nil_iff]
      intro s hs he
      have hle := h.numbered s hs (groups + 1 : Nat) (by simpa using he)
      omega
    have hnew : arcs.filter (·.arcGroup == some ((groups + 1 : Nat) : Int)) = arcs := by
      rw [List.filter_eq_self]
      intro s hs
      rw [(mem_arcChain hs).2.2]
      exact beq_self_eq_true _
    rw [hsegments, List.filter_append, hold, hnew, List.nil_append]

end Accounted

/-! ## One command -/

namespace Machine

/-- All segments with the pen down are accounted for by the finished polygons and by the open one,
which ends where the turtle stands. -/
def Inked (m : Machine) : Prop :=
  ∃ block, Accounted m.drawing m.turtle.arcGroups block ∧
    OpenStroke m.turtle.position block m.drawing.current

theorem inked_start (resolution : Int) (comments : List Comment) :
    (start resolution comments).Inked := by
  refine ⟨[], ⟨⟨[], rfl, .nil⟩, fun _ h => (by cases h)⟩, .inr ⟨fun _ h => (by cases h), ?_, rfl⟩⟩
  exact follows_single .origin

variable {m m' : Machine} {line : Int} {action : Action}

theorem Inked.keeps (h : m.Inked) (hk : Keeps m.turtle.position m.drawing m'.drawing)
    (hposition : m'.turtle.position = m.turtle.position)
    (hgroups : m'.turtle.arcGroups = m.turtle.arcGroups) : m'.Inked := by
  obtain ⟨block, ha, ho⟩ := h
  refine ⟨block, ?_, ?_⟩
  · rw [hgroups]
    exact ha.of_eq hk.segments hk.polygons
  · rw [hposition]
    exact hk.stroke block ho

/-- With the pen up there is no open stroke. -/
theorem Inked.of_penUp (h : m.Inked) (hclosed : m.PenUpClosed) (hup : m.turtle.penDown = false) :
    Accounted m.drawing m.turtle.arcGroups [] := by
  obtain ⟨block, ha, ho⟩ := h
  rw [hclosed hup] at ho
  cases ho
  exact ha

theorem Inked.lineTo (h : m.Inked) (hclosed : m.PenUpClosed) (p : Point) (line : Int) :
    (m.lineTo p line).Inked := by
  let s : Segment :=
    ⟨m.drawing.counter, line, m.turtle.position, p, m.turtle.penDown, none⟩
  have hnone : ∀ t ∈ [s], ∀ g, t.arcGroup = some g →
      (m.turtle.arcGroups : Int) < g ∧ g ≤ m.turtle.arcGroups := by
    intro t ht g hg
    rw [List.mem_singleton.mp ht] at hg
    cases hg
  by_cases hd : m.turtle.penDown = true
  · obtain ⟨block, ha, ho⟩ := h
    let d := m.drawing.addSegment m.turtle.position p line m.turtle.penDown none
    have hdrawing : (m.lineTo p line).drawing = d.addPoint p m.turtle.position := by
      simp [Machine.lineTo, drawing, Canvas.onDrawing, hd, d]
    have hk : Keeps m.turtle.position d (d.ensurePolygon m.turtle.position) := .ensurePolygon d
    refine ⟨block ++ [s], ?_, ?_⟩
    · have hs : (m.lineTo p line).drawing.segments.toList = m.drawing.segments.toList ++ [s] := by
        rw [hdrawing, Drawing.addPoint, Drawing.onCurrent, hk.segments]
        simp [d, s, Drawing.addSegment]
      have hp : (m.lineTo p line).drawing.polygons = m.drawing.polygons := by
        rw [hdrawing]
        exact hk.polygons
      have happend := ha.append hs hp (Nat.le_refl _) hnone
      have hdown : [s].filter (·.penDown) = [s] := by simp [s, hd]
      rw [hdown] at happend
      exact happend
    · rw [hdrawing]
      exact OpenStroke.addPoint (s := s) (d := d) ho rfl rfl
  · have hup : m.turtle.penDown = false := by simpa using hd
    have ha := h.of_penUp hclosed hup
    refine ⟨[], ?_, ?_⟩
    · have hs : (m.lineTo p line).drawing.segments.toList = m.drawing.segments.toList ++ [s] := by
        simp [Machine.lineTo, drawing, Canvas.onDrawing, hup, Drawing.addSegment, s]
      have hp : (m.lineTo p line).drawing.polygons = m.drawing.polygons := by
        simp [Machine.lineTo, drawing, Canvas.onDrawing, hup]
      have happend := ha.append hs hp (Nat.le_refl _) hnone
      have hnotDown : [s].filter (·.penDown) = [] := by simp [s, hup]
      rw [hnotDown] at happend
      exact happend
    · rw [hclosed.lineTo p hup]
      rfl

theorem keeps_flushUpTo (c : Canvas) (line : Int) (position : Point) :
    Keeps position c.drawing (c.flushUpTo line).drawing :=
  .place (c.queue.upTo line) c.drawing

theorem Inked.penUp (h : m.Inked) (line : Int) : (m.penUp line).Inked := by
  unfold Machine.penUp
  split
  · obtain ⟨block, ha, ho⟩ := h
    have hk := keeps_flushUpTo m.canvas line m.turtle.position
    have hflushed := ha.of_eq hk.segments hk.polygons
    rw [← List.append_nil block] at hflushed
    refine ⟨[], hflushed.finishPolygon (hk.stroke block ho) false none nofun, ?_⟩
    simp [drawing, Canvas.setCursor, Canvas.onDrawing, OpenStroke]
  · exact h

theorem Inked.penDown (h : m.Inked) (line : Int) : (m.penDown line).Inked := by
  unfold Machine.penDown
  split
  · exact h
  · exact h.keeps ((keeps_flushUpTo m.canvas line _).trans (.ensurePolygon _)) rfl rfl

theorem Inked.placeNote (h : m.Inked) (hclosed : m.PenUpClosed) (text : Text) (line : Int) :
    (m.placeNote text line).Inked := by
  unfold Machine.placeNote
  split
  · exact h.keeps (.pinComments [text] m.drawing) rfl rfl
  · rename_i hd
    have hup : m.turtle.penDown = false := by simpa using hd
    have ha := h.of_penUp hclosed hup
    have hopen : OpenStroke m.turtle.position [] m.drawing.current := by
      rw [hclosed hup]
      rfl
    -- The note gets a polygon of its own, with the turtle as its only point.
    have hk := (((keeps_flushUpTo m.canvas (line - 1) m.turtle.position).trans (.ensureTarget _)).trans
      (.onCurrent (f := fun polygon => { polygon with free := polygon.free.push text })
        (fun _ => rfl) _)).trans (.ensurePolygon _)
    have hnoted := ha.of_eq hk.segments hk.polygons
    rw [← List.append_nil []] at hnoted
    refine ⟨[], hnoted.finishPolygon (hk.stroke [] hopen) true none fun _ => rfl, ?_⟩
    simp [drawing, onCanvas, Canvas.onDrawing, OpenStroke]

/-! ## Arcs -/

/-- Closing the traced polygon before an arc accounts for its stroke. -/
theorem accounted_closeBeforeArc {c : Canvas} {groups : Nat} {block rest : List Segment}
    {position : Point} (ha : Accounted c.drawing groups (block ++ rest))
    (ho : OpenStroke position block c.drawing.current) (line : Int) :
    Accounted (closeBeforeArc c line).drawing groups rest ∧
      (closeBeforeArc c line).drawing.segments = c.drawing.segments := by
  unfold closeBeforeArc
  cases hc : c.drawing.current with
  | none =>
    rw [hc] at ho
    cases ho
    exact ⟨ha, rfl⟩
  | some polygon =>
    by_cases hseed : polygon.isSeed = true
    · rw [hc] at ho
      rw [ho.eq_nil_of_isSeed hseed] at ha
      simp only [hseed, if_true, and_true]
      exact ha
    · simp only [hseed]
      have hk := keeps_flushUpTo c (line - 1) position
      have hflushed := ha.of_eq hk.segments hk.polygons
      refine ⟨hflushed.finishPolygon (hk.stroke block ho) false none nofun, ?_⟩
      show ((c.flushUpTo (line - 1)).drawing.finishPolygon false none).segments = _
      rw [← hk.segments]
      unfold Drawing.finishPolygon
      split <;> rfl

theorem points_place {d : Drawing} {p : Polygon} (h : d.current = some p) (texts : List Text) :
    ∃ q, (d.place texts).current = some q ∧ q.points = p.points := by
  unfold Drawing.place
  split
  · exact ⟨p, h, rfl⟩
  · refine ⟨p.addComments texts, ?_, ?_⟩
    · simp [Drawing.addComments, Drawing.ensureTarget, Drawing.onCurrent, h]
    · unfold Polygon.addComments
      split <;> rfl

theorem accounted_arcPolygon {c : Canvas} {groups : Nat} {block arcs : List Segment}
    {position : Point} {group : Int} {points : Array Point}
    (ha : Accounted c.drawing groups (block ++ arcs))
    (ho : OpenStroke position block c.drawing.current) (hne : arcs ≠ [])
    (hwhole : arcs = c.drawing.segments.toList.filter (·.arcGroup == some group))
    (hends : points.toList = arcs.map (·.stop)) (line : Int) (circle : Option Circle) :
    Accounted (arcPolygon c line points circle).drawing groups [] := by
  obtain ⟨hclosed, hsegments⟩ := accounted_closeBeforeArc ha ho line
  unfold arcPolygon
  generalize closeBeforeArc c line = c₁ at hclosed hsegments
  -- The open polygon gets the points of the arc, and comments do not change them.
  let d := c₁.drawing.ensureTarget.onCurrent fun polygon => { polygon with points := points }
  have htarget : Keeps position c₁.drawing c₁.drawing.ensureTarget := .ensureTarget _
  obtain ⟨p, hp, hpoints⟩ : ∃ p, d.current = some p ∧ p.points = points := by
    cases hc : c₁.drawing.current with
    | none => exact ⟨_, by simp [d, Drawing.ensureTarget, Drawing.onCurrent, hc]; rfl, rfl⟩
    | some q => exact ⟨_, by simp [d, Drawing.ensureTarget, Drawing.onCurrent, hc]; rfl, rfl⟩
  obtain ⟨q, hq, hsame⟩ := points_place hp (c₁.queue.upTo line)
  have hk : Keeps position d (d.place (c₁.queue.upTo line)) := .place _ d
  have hflushed : Accounted (d.place (c₁.queue.upTo line)) groups (arcs ++ []) := by
    rw [List.append_nil]
    exact hclosed.of_eq (hk.segments.trans htarget.segments) (hk.polygons.trans htarget.polygons)
  have hfinish : (d.place (c₁.queue.upTo line)).finishPolygon false circle =
      { d.place (c₁.queue.upTo line) with
        polygons := (d.place (c₁.queue.upTo line)).polygons.push
          { q with commentOnly := q.points.isEmpty, circle := circle }
        current := none } := by
    simp only [Drawing.finishPolygon, hq, Bool.false_or]
  show Accounted ((d.place (c₁.queue.upTo line)).finishPolygon false circle) groups []
  rw [hfinish]
  refine hflushed.push rfl rfl ?_ ?_
  · intro hempty
    have hn : points = #[] := by rw [← hpoints, ← hsame]; exact Array.isEmpty_iff.mp hempty
    rw [hn] at hends
    exact List.map_eq_nil_iff.mp hends.symm
  · intro _
    refine .arc group hne ?_ ?_
    · have hd : d.segments = c₁.drawing.segments := htarget.segments
      rw [hk.segments, hd, hsegments]
      exact hwhole
    · show q.points.toList = _
      rw [hsame, hpoints, hends]

theorem Inked.traceArc (h : m.Inked) (hclosed : m.PenUpClosed) {vertices : Array Point}
    (hv : 2 ≤ vertices.size) (angle radius : Float) (line : Int) :
    (m.traceArc vertices angle radius line).Inked := by
  by_cases hd : m.turtle.penDown = true
  · obtain ⟨block, ha, ho⟩ := h
    obtain ⟨hlogged, hwhole⟩ := ha.addArc line true vertices.toList
    simp only [if_true] at hlogged
    have hends : (vertices.extract 1 vertices.size).toList =
        (arcChain line true (m.turtle.arcGroups + 1 : Nat) m.drawing.counter
          vertices.toList).map (·.stop) := by
      rw [map_stop_arcChain, Array.toList_extract, List.extract_eq_take_drop, List.drop_one]
      exact List.take_of_length_le (by simp)
    let c := m.canvas.onDrawing
      (addArcSegments line true (m.turtle.arcGroups + 1 : Nat) vertices.toList)
    have hopen : OpenStroke m.turtle.position block c.drawing.current := by
      show OpenStroke _ _ (addArcSegments line true _ vertices.toList m.drawing).current
      rw [current_addArcSegments]
      exact ho
    refine ⟨[], ?_, ?_⟩
    · simp only [Machine.traceArc, Turtle.openArcGroup, hd, if_true]
      exact accounted_arcPolygon (c := c) hlogged hopen (arcChain_ne_nil (by simpa using hv)) hwhole
        hends line _
    · simp [Machine.traceArc, Turtle.openArcGroup, hd, drawing, arcPolygon, Canvas.setCursor,
        Canvas.onDrawing, OpenStroke]
  · have hup : m.turtle.penDown = false := by simpa using hd
    obtain ⟨hlogged, -⟩ := (h.of_penUp hclosed hup).addArc line false vertices.toList
    refine ⟨[], ?_, ?_⟩
    · simp only [Machine.traceArc, Turtle.openArcGroup, hup, Bool.false_eq_true, if_false]
      exact hlogged
    · have hcurrent : (m.traceArc vertices angle radius line).drawing.current = m.drawing.current := by
        simp [Machine.traceArc, Turtle.openArcGroup, hup, drawing, Canvas.onDrawing]
      rw [hcurrent, hclosed hup]
      rfl

/-! ## Runs -/

theorem Inked.change (h : m.Inked) (hclosed : m.PenUpClosed) (hc : m.Change line action m') :
    m'.Inked := by
  cases hc with
  | skip => exact h
  | bind => exact h
  | steer _ t position _ groups => exact h.keeps (.refl _) position groups
  | move _ p => exact h.lineTo hclosed p line
  | home => exact (h.lineTo hclosed .origin line).keeps (.refl _) rfl rfl
  | penUp => exact h.penUp line
  | penDown => exact h.penDown line
  | flatArc => exact h
  | arc _ _ _ verticesOk => exact h.traceArc hclosed (two_le_size_arcVertices verticesOk) _ _ line
  | note => exact h.placeNote hclosed _ line
  | @marker label _ p text _ =>
    have hmarked : (m.onCanvas (·.onDrawing (·.addMarker p label))).Inked :=
      h.keeps ⟨rfl, rfl, fun _ hb => hb⟩ rfl rfl
    exact hmarked.placeNote hclosed text line

end Machine

variable {limits : Limits} {m m' : Machine}

theorem Visit.inked_ready {v : Visit} (h : v.before.Inked) : v.ready.Inked := by
  refine h.keeps ?_ rfl rfl
  show Keeps _ _ (v.before.canvas.beforeCommand v.command.kind v.command.line
    v.before.turtle.penDown v.before.turtle.position).drawing
  unfold Canvas.beforeCommand
  split
  · exact .refl _
  · exact .placeBefore _ v.command.kind _

theorem Advance.inked {v : Visit} (h : Advance limits v m') (hclosed : v.before.PenUpClosed)
    (hv : v.before.Inked) : m'.Inked := by
  obtain hc | ⟨-, -, trace, rfl⟩ := h.cases
  · exact (Visit.inked_ready hv).change (Visit.penUpClosed_ready hclosed) hc
  · exact Visit.inked_ready hv

theorem Path.inked {visits : List Visit} (h : Path limits m visits m')
    (hm : m.PenUpClosed ∧ m.Inked) : m'.PenUpClosed ∧ m'.Inked :=
  h.preserves (P := fun m => m.PenUpClosed ∧ m.Inked)
    (fun _ _ ha hv => ⟨ha.penUpClosed hv.1, ha.inked hv.1 hv.2⟩) hm

/-- The end of a run accounts for the stroke that is still open. -/
theorem Machine.Inked.finish (h : m.Inked) : Accounted m.finish.drawing m.turtle.arcGroups [] := by
  obtain ⟨block, ha, ho⟩ := h
  show Accounted m.canvas.finish.drawing m.turtle.arcGroups []
  obtain ⟨p, hp, hseed, -, -, -, hfinish⟩ | ⟨untraced, -, huntraced, hfinish⟩ :=
    m.canvas.finish_cases
  · have ho' : OpenStroke m.turtle.position block (some p) := hp ▸ ho
    rw [ho'.eq_nil_of_isSeed hseed] at ha
    rw [hfinish]
    exact ha.of_eq rfl rfl
  · have hk : Keeps m.turtle.position m.canvas.drawing m.canvas.flushAll.drawing := .place _ _
    have hopen := hk.stroke block ho
    have hflushed := ha.of_eq hk.segments hk.polygons
    rw [← List.append_nil block] at hflushed
    rw [hfinish]
    refine hflushed.finishPolygon hopen untraced none ?_
    intro hu
    rw [huntraced, Option.any_eq_true] at hu
    obtain ⟨p, hp, hbare⟩ := hu
    rw [hp] at hopen
    exact hopen.eq_nil_of_isSeed (Bool.and_eq_true_iff.mp hbare).1

/-- The segments with the pen down are cut into blocks that match the finished polygons which are not
comments alone, in order: each is the straight stroke along the points of its polygon, or one whole
arc whose ends are the points. -/
theorem penDown_segments_eq_strokes {limits : Limits} {resolution : Int} {commands : List Command}
    {comments : List Comment} {m : Machine}
    (h : execute limits resolution commands comments = .done m) :
    ∃ blocks : List (List Segment),
      blocks.flatten = m.drawing.segments.toList.filter (·.penDown) ∧
      List.Forall₂
        (fun block (p : Polygon) => Traces m.drawing.segments.toList block p.points.toList) blocks
        (m.drawing.polygons.toList.filter (!·.commentOnly)) := by
  obtain ⟨n, hrun, rfl⟩ := execute_eq_done h
  have hstart := Machine.penUpClosed_start resolution comments
  obtain ⟨-, hinked⟩ := (path_of_runCommands hrun).inked
    ⟨hstart, Machine.inked_start resolution comments⟩
  obtain ⟨blocks, hflat, htraces⟩ := hinked.finish.blocks
  rw [List.append_nil] at hflat
  exact ⟨blocks, hflat, htraces⟩

/-- Two strokes, a move with the pen up, and an arc between them. -/
theorem strokes_of_mixed_run :
    ∃ m, execute {} 4
        [⟨.setXY (.number 3) (.number 4), 1⟩, ⟨.home, 2⟩, ⟨.penUp, 3⟩, ⟨.setX (.number 5), 4⟩,
          ⟨.penDown, 5⟩, ⟨.arc (.number 90) (.number 2), 6⟩, ⟨.setY (.number 5), 7⟩] [] = .done m ∧
      ∃ blocks : List (List Segment),
        blocks.flatten = m.drawing.segments.toList.filter (·.penDown) ∧
        List.Forall₂
          (fun block (p : Polygon) => Traces m.drawing.segments.toList block p.points.toList) blocks
          (m.drawing.polygons.toList.filter (!·.commentOnly)) :=
  (Outcome.exists_of_isDone (by decide +kernel)).imp fun _ h => ⟨h, penDown_segments_eq_strokes h⟩

end TurtleTrace
