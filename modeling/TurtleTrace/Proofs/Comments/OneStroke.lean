import Mathlib.Data.List.Basic
import TurtleTrace.Proofs.Machine.Journal
import TurtleTrace.Proofs.Sorting

/-!
# Comments along one stroke

Commands that turn, go in straight lines and set numbers trace a single polygon. Where a comment of the
source lands in it depends on the lines alone, not on the run: on how many points are made down to the
line of the comment, and on the first command below it while there is none.

* `strokeSlot`: the place of a comment by its line.
* `Canvas.Stroke`: the invariant of such a run; the comments above the cursor are at their places, and
  the others wait.
-/

namespace TurtleTrace

set_option autoImplicit false

/-! ## The place of a comment -/

/-- Whether an action traces a straight line, or turns the turtle or sets a number and traces nothing. -/
def Action.keepsStroke : Action → Bool
  | forward _ | back _ | setX _ | setY _ | setXY _ _ | home => true
  | left _ | right _ | setHeading _ | setResolution _ | makeNumber _ _ => true
  | _ => false

/-- The number of points that commands make down to a line. -/
def pointsThrough (commands : List Command) (line : Int) : Nat :=
  commands.countP fun x => x.kind.makesPoint && decide (x.line ≤ line)

/-- Whether the first command below a line makes a point. -/
def pointBelow (commands : List Command) (line : Int) : Bool :=
  (commands.find? fun x => decide (line < x.line)).any (·.kind.makesPoint)

/-- The slot of a comment on a line; a comment without one stands in front of the polygon. Once there
are points, the comment goes behind the last of them. Before that, a comment is pinned to the first
point if it or a comment above it stands right above a command that makes a point. -/
def strokeSlot (commands : List Command) (comments : List Comment) (line : Int) : Option Int :=
  if 0 < pointsThrough commands line then some ((pointsThrough commands line : Int) + 1)
  else if comments.any fun d => decide (d.line ≤ line) && pointBelow commands d.line then some 0
  else none

/-- The texts in front of the polygon. -/
def inFront (slot : Int → Option Int) (comments : List Comment) : List Text :=
  (comments.filter fun c => (slot c.line).isNone).map (·.text)

/-- The texts inside the polygon, with their slots. -/
def atPoints (slot : Int → Option Int) (comments : List Comment) : List (Int × Text) :=
  comments.filterMap fun c => (slot c.line).map fun s => (s, c.text)

theorem inFront_append (slot : Int → Option Int) (cs ds : List Comment) :
    inFront slot (cs ++ ds) = inFront slot cs ++ inFront slot ds := by
  rw [inFront, List.filter_append, List.map_append]
  rfl

theorem atPoints_append (slot : Int → Option Int) (cs ds : List Comment) :
    atPoints slot (cs ++ ds) = atPoints slot cs ++ atPoints slot ds :=
  List.filterMap_append

theorem pointBelow_iff {commands : List Command} {line : Int} :
    pointBelow commands line = true ↔
      ∃ x, (commands.find? fun y => decide (line < y.line)) = some x ∧
        x.kind.makesPoint = true := by
  unfold pointBelow
  cases commands.find? fun y => decide (line < y.line) with
  | none => simp
  | some x => simp

/-- While no point is made, the comments above one have no say in its place: a command that makes a
point below one of them is below it too. -/
theorem any_pointBelow {commands : List Command} {comments : List Comment} {c : Comment}
    (hc : c ∈ comments) (hnone : pointsThrough commands c.line = 0) :
    (comments.any fun d => decide (d.line ≤ c.line) && pointBelow commands d.line) =
      pointBelow commands c.line := by
  refine Bool.eq_iff_iff.mpr ⟨fun h => ?_, fun h => ?_⟩
  · obtain ⟨d, -, hd⟩ := List.any_eq_true.mp h
    obtain ⟨hle, hbelow⟩ := Bool.and_eq_true_iff.mp hd
    have hle : d.line ≤ c.line := of_decide_eq_true hle
    obtain ⟨x, hfind, hpoint⟩ := pointBelow_iff.mp hbelow
    obtain ⟨hx, before, after, hcommands, hbefore⟩ := List.find?_eq_some_iff_append.mp hfind
    have hmem : x ∈ commands := by
      rw [hcommands]
      exact List.mem_append_right _ List.mem_cons_self
    have hlow : c.line < x.line := by
      have hzero := List.countP_eq_zero.mp hnone x hmem
      simp only [hpoint, Bool.true_and, decide_eq_true_eq] at hzero
      omega
    have hfind' : (commands.find? fun y => decide (c.line < y.line)) = some x := by
      refine List.find?_eq_some_iff_append.mpr
        ⟨decide_eq_true hlow, before, after, hcommands, fun y hy => ?_⟩
      have hyd := hbefore y hy
      simp only [Bool.not_eq_true', decide_eq_false_iff_not] at hyd ⊢
      omega
    exact pointBelow_iff.mpr ⟨x, hfind', hpoint⟩
  · refine List.any_eq_true.mpr ⟨c, hc, ?_⟩
    rw [h, decide_eq_true (Int.le_refl _)]
    rfl

section Between

variable {before after : List Command} {comments : List Comment} {c : Comment}

/-- The points made down to a line are those of the commands that are not below it. -/
theorem pointsThrough_append (hbefore : ∀ y ∈ before, y.line ≤ c.line)
    (hafter : ∀ y ∈ after, c.line < y.line) :
    pointsThrough (before ++ after) c.line = before.countP (·.kind.makesPoint) := by
  have hall : pointsThrough before c.line = before.countP (·.kind.makesPoint) := by
    refine List.countP_congr fun y hy => ?_
    simp [hbefore y hy]
  have hnone : pointsThrough after c.line = 0 := by
    refine List.countP_eq_zero.mpr fun y hy => ?_
    simp [Int.not_le.mpr (hafter y hy)]
  calc
    pointsThrough (before ++ after) c.line
      = pointsThrough before c.line + pointsThrough after c.line := List.countP_append
    _ = before.countP (·.kind.makesPoint) := by rw [hall, hnone, Nat.add_zero]

theorem strokeSlot_of_points (hbefore : ∀ y ∈ before, y.line ≤ c.line)
    (hafter : ∀ y ∈ after, c.line < y.line) (hpoints : 0 < before.countP (·.kind.makesPoint)) :
    strokeSlot (before ++ after) comments c.line =
      some ((before.countP (·.kind.makesPoint) : Int) + 1) := by
  rw [strokeSlot, pointsThrough_append hbefore hafter, if_pos hpoints]

theorem strokeSlot_of_no_points {x : Command} (hc : c ∈ comments)
    (hbefore : ∀ y ∈ before, y.line ≤ c.line) (hafter : ∀ y ∈ x :: after, c.line < y.line)
    (hpoints : before.countP (·.kind.makesPoint) = 0) :
    strokeSlot (before ++ x :: after) comments c.line =
      if x.kind.makesPoint then some 0 else none := by
  have hnone : pointsThrough (before ++ x :: after) c.line = 0 := by
    rw [pointsThrough_append hbefore hafter, hpoints]
  have hfind : ((before ++ x :: after).find? fun y => decide (c.line < y.line)) = some x := by
    refine List.find?_eq_some_iff_append.mpr
      ⟨decide_eq_true (hafter x List.mem_cons_self), before, after, rfl, fun y hy => ?_⟩
    simp [Int.not_lt.mpr (hbefore y hy)]
  rw [strokeSlot, hnone, if_neg (Nat.lt_irrefl 0), any_pointBelow hc hnone, pointBelow, hfind,
    Option.any_some]

end Between

/-! ## Polygons that take comments -/

/-- A polygon takes comments in, each at its place. -/
structure Polygon.Takes (slot : Int → Option Int) (cs : List Comment) (p q : Polygon) : Prop where
  points : q.points = p.points
  free : q.free.toList = p.free.toList ++ inFront slot cs
  pinned : q.pinned.toList = p.pinned.toList ++ atPoints slot cs

namespace Polygon

variable {slot : Int → Option Int} {cs : List Comment} {p : Polygon}

theorem takes_pin {s : Int} (h : ∀ c ∈ cs, slot c.line = some s) :
    p.Takes slot cs (p.pin s (cs.map (·.text))) := by
  refine ⟨rfl, ?_, ?_⟩
  · have hfree : inFront slot cs = [] := by
      rw [inFront, List.filter_eq_nil_iff.mpr fun c hc => by simp [h c hc], List.map_nil]
    rw [hfree, List.append_nil]
    rfl
  · have hpinned : atPoints slot cs = (cs.map (·.text)).map fun text => (s, text) := by
      rw [atPoints, List.map_map, ← List.filterMap_eq_map]
      exact List.filterMap_congr fun c hc => by rw [h c hc]; rfl
    simp [pin, hpinned]

theorem takes_front (h : ∀ c ∈ cs, slot c.line = none) :
    p.Takes slot cs { p with free := p.free ++ cs.map (·.text) } := by
  refine ⟨rfl, ?_, ?_⟩
  · have hfree : inFront slot cs = cs.map (·.text) := by
      rw [inFront, List.filter_eq_self.mpr fun c hc => by simp [h c hc]]
    simp [hfree]
  · have hpinned : atPoints slot cs = [] :=
      List.filterMap_eq_nil_iff.mpr fun c hc => by rw [h c hc]; rfl
    rw [hpinned, List.append_nil]

theorem takes_addComments
    (h : ∀ c ∈ cs, slot c.line = if p.isSeed && p.pinned.isEmpty then none else some p.nextSlot) :
    p.Takes slot cs (p.addComments (cs.map (·.text))) := by
  unfold addComments
  by_cases hfront : (p.isSeed && p.pinned.isEmpty) = true
  · rw [if_pos hfront]
    exact takes_front fun c hc => by rw [h c hc, if_pos hfront]
  · rw [if_neg hfront]
    exact takes_pin fun c hc => by rw [h c hc, if_neg hfront]

theorem pin_nil (s : Int) : p.pin s [] = p := by simp [pin]

theorem addComments_nil : p.addComments [] = p := by
  unfold addComments
  split
  · simp
  · exact pin_nil _

end Polygon

namespace Drawing

variable {d : Drawing} {p : Polygon}

theorem place_of_current (h : d.current = some p) (texts : List Text) :
    d.place texts = { d with current := some (p.addComments texts) } := by
  cases texts with
  | nil => rw [Polygon.addComments_nil, ← h]; rfl
  | cons text texts => simp [place, addComments, ensureTarget, onCurrent, h]

theorem ensurePolygon_of_current (h : d.current = some p) (hp : p.points.isEmpty = false)
    (position : Point) : d.ensurePolygon position = d := by
  simp [ensurePolygon, h, hp]

theorem placeBefore_of_current (h : d.current = some p) (hp : p.points.isEmpty = false)
    (texts : List Text) (kind : Kind) (position : Point) :
    d.placeBefore texts kind position =
      { d with
        current := some (if kind.makesPoint then p.pinHere texts else p.addComments texts) } := by
  cases texts with
  | nil => rw [Polygon.addComments_nil, Polygon.pinHere, Polygon.pin_nil, ite_self, ← h]; rfl
  | cons text texts =>
    cases hkind : kind.makesPoint with
    | true =>
      simp [placeBefore, hkind, pinComments, ensurePolygon_of_current h hp, onCurrent, h]
    | false => simp [placeBefore, hkind, addComments, ensureTarget, onCurrent, h]

end Drawing

/-! ## The invariant -/

/-- What a canvas holds after commands of one stroke: no polygon is finished, the open one has the
origin and the ends of all segments, of which each command that makes a point has traced one, and the
comments above the cursor are in it. -/
structure Canvas.Stroke (slot : Int → Option Int) (sorted : List Comment) (ran : List Command)
    (c : Canvas) (p : Polygon) : Prop where
  polygons : c.drawing.polygons = #[]
  current : c.drawing.current = some p
  points : p.points.toList = .origin :: c.drawing.segments.toList.map (·.stop)
  lines : c.drawing.segments.toList.map (·.line) =
    (ran.filter (·.kind.makesPoint)).map (·.line)
  reached : ∀ x ∈ ran, x.line ≤ c.queue.cursor
  waiting : c.queue.waiting = sorted.filter fun d => decide (c.queue.cursor ≤ d.line)
  free : p.free.toList = inFront slot (sorted.filter fun d => decide (d.line < c.queue.cursor))
  pinned : p.pinned.toList =
    atPoints slot (sorted.filter fun d => decide (d.line < c.queue.cursor))

namespace Canvas.Stroke

variable {slot : Int → Option Int} {sorted : List Comment} {ran : List Command} {c : Canvas}
  {p q : Polygon}

theorem size (h : c.Stroke slot sorted ran p) :
    p.points.size = ran.countP (·.kind.makesPoint) + 1 := by
  have hpoints := congrArg List.length h.points
  have hlines := congrArg List.length h.lines
  simp only [List.length_cons, List.length_map, Array.length_toList] at hpoints hlines
  rw [hpoints, hlines, List.countP_eq_length_filter]

theorem isEmpty (h : c.Stroke slot sorted ran p) : p.points.isEmpty = false := by
  have hsize := h.size
  rw [Array.isEmpty_eq_false_iff, ← Array.size_pos_iff]
  omega

theorem isSeed_iff (h : c.Stroke slot sorted ran p) :
    p.isSeed = true ↔ ran.countP (·.kind.makesPoint) = 0 := by
  rw [Polygon.isSeed, decide_eq_true_iff, h.size]
  omega

/-- The waiting comments above a line are those between it and the cursor. -/
theorem above (h : c.Stroke slot sorted ran p)
    (hs : sorted.Pairwise fun d e => d.line ≤ e.line) {line : Int} (hline : c.queue.cursor ≤ line) :
    let above := c.queue.waiting.takeWhile fun d => decide (d.line ≤ line - 1)
    (∀ d ∈ above, d ∈ sorted ∧ c.queue.cursor ≤ d.line ∧ d.line < line) ∧
      (sorted.filter fun d => decide (d.line < line)) =
        (sorted.filter fun d => decide (d.line < c.queue.cursor)) ++ above ∧
      (c.queue.waiting.dropWhile fun d => decide (d.line ≤ line - 1)) =
        sorted.filter fun d => decide (line ≤ d.line) := by
  have hordered : c.queue.waiting.Pairwise fun d e => d.line ≤ e.line := by
    rw [h.waiting]
    exact hs.filter _
  obtain ⟨htake, hdrop⟩ := span_of_ascending Comment.line (k := line) hordered
    (p := fun d => decide (d.line ≤ line - 1))
    fun d _ => decide_eq_decide.mpr (by omega)
  have hbelow := filter_append_of_ascending Comment.line
    (hs.filter fun d => decide (d.line < line)) c.queue.cursor
  intro above
  have habove : above = (sorted.filter fun d => decide (d.line < line)).filter fun d =>
      decide (c.queue.cursor ≤ d.line) := by
    rw [show above = _ from htake, h.waiting, List.filter_filter, List.filter_filter]
    exact List.filter_congr fun d _ => Bool.and_comm _ _
  have hlow : ((sorted.filter fun d => decide (d.line < line)).filter fun d =>
      decide (d.line < c.queue.cursor)) = sorted.filter fun d => decide (d.line < c.queue.cursor) := by
    rw [List.filter_filter]
    refine List.filter_congr fun d _ => ?_
    rw [← Bool.decide_and]
    exact decide_eq_decide.mpr (by omega)
  refine ⟨fun d hd => ?_, ?_, ?_⟩
  · rw [habove, List.mem_filter, List.mem_filter] at hd
    obtain ⟨⟨hmem, hlow⟩, hcursor⟩ := hd
    exact ⟨hmem, of_decide_eq_true hcursor, of_decide_eq_true hlow⟩
  · rw [habove, ← hlow, hbelow]
  · rw [hdrop, h.waiting, List.filter_filter]
    refine List.filter_congr fun d _ => ?_
    rw [← Bool.decide_and]
    exact decide_eq_decide.mpr (by omega)

theorem place (h : c.Stroke slot sorted ran p)
    (hs : sorted.Pairwise fun d e => d.line ≤ e.line) {line : Int} (hline : c.queue.cursor ≤ line)
    (hq : p.Takes slot (c.queue.waiting.takeWhile fun d => decide (d.line ≤ line - 1)) q) :
    Canvas.Stroke slot sorted ran
      { drawing := { c.drawing with current := some q }
        queue := (c.queue.dropUpTo (line - 1)).setCursor line } q := by
  obtain ⟨-, hbelow, hrest⟩ := h.above hs hline
  refine ⟨h.polygons, rfl, ?_, h.lines, ?_, hrest, ?_, ?_⟩
  · rw [hq.points]
    exact h.points
  · exact fun x hx => Int.le_trans (h.reached x hx) hline
  · rw [hq.free, h.free, ← inFront_append, ← hbelow]
    rfl
  · rw [hq.pinned, h.pinned, ← atPoints_append, ← hbelow]
    rfl

/-- Before a command of the stroke, the comments above it go to their places and the cursor reaches it.
Only a command that makes a point lets something be pinned to a seed. -/
theorem beforeCommand (h : c.Stroke slot sorted ran p)
    (hs : sorted.Pairwise fun d e => d.line ≤ e.line) {x : Command}
    (hclear : p.isSeed = true → p.pinned = #[])
    (hslot : ∀ d ∈ sorted, c.queue.cursor ≤ d.line → d.line < x.line →
      slot d.line = if p.isSeed && !x.kind.makesPoint then none else some p.nextSlot)
    (position : Point) :
    ∃ q, (c.beforeCommand x.kind x.line true position).Stroke slot sorted ran q ∧
      x.line ≤ (c.beforeCommand x.kind x.line true position).queue.cursor ∧
      (x.kind.makesPoint = false → q.isSeed = true → q.pinned = #[]) := by
  unfold Canvas.beforeCommand
  by_cases hline : x.line ≤ c.queue.cursor
  · rw [if_pos (by simp [hline])]
    exact ⟨p, h, hline, fun _ => hclear⟩
  · have hcursor : c.queue.cursor ≤ x.line := by omega
    obtain ⟨habove, -, -⟩ := h.above hs hcursor
    rw [if_neg (by simp [hline]), Drawing.placeBefore_of_current h.current h.isEmpty]
    cases hpoint : x.kind.makesPoint with
    | true =>
      rw [if_pos rfl]
      refine ⟨_, h.place hs hcursor (Polygon.takes_pin ?_), Int.le_refl _, nofun⟩
      intro d hd
      obtain ⟨hmem, hhigh, hlow⟩ := habove d hd
      rw [hslot d hmem hhigh hlow, hpoint]
      simp
    | false =>
      rw [if_neg Bool.false_ne_true]
      have htakes : p.Takes slot (c.queue.waiting.takeWhile fun d => decide (d.line ≤ x.line - 1))
          (p.addComments (c.queue.upTo (x.line - 1))) := by
        refine Polygon.takes_addComments fun d hd => ?_
        obtain ⟨hmem, hhigh, hlow⟩ := habove d hd
        rw [hslot d hmem hhigh hlow, hpoint]
        cases hseed : p.isSeed with
        | true => simp [hclear hseed]
        | false => simp
      refine ⟨_, h.place hs hcursor htakes, Int.le_refl _, fun _ hseed => ?_⟩
      have hseed' : p.isSeed = true := by rwa [Polygon.isSeed, htakes.points] at hseed
      simp [Polygon.addComments, hseed', hclear hseed']

theorem reached_snoc (h : c.Stroke slot sorted ran p) {x : Command}
    (hline : x.line ≤ c.queue.cursor) : ∀ y ∈ ran ++ [x], y.line ≤ c.queue.cursor := by
  intro y hy
  obtain hy | hy := List.mem_append.mp hy
  · exact h.reached y hy
  · rw [List.mem_singleton.mp hy]
    exact hline

/-- A command that makes no point leaves the stroke as it is. -/
theorem still (h : c.Stroke slot sorted ran p) {x : Command} (hline : x.line ≤ c.queue.cursor)
    (hpoint : x.kind.makesPoint = false) : c.Stroke slot sorted (ran ++ [x]) p := by
  refine { h with lines := ?_, reached := ?_ }
  · simp [h.lines, hpoint]
  · exact h.reached_snoc hline

/-- A command that makes a point adds it to the stroke. -/
theorem trace (h : c.Stroke slot sorted ran p) {x : Command} (hline : x.line ≤ c.queue.cursor)
    (hpoint : x.kind.makesPoint = true) (start stop : Point) :
    (c.onDrawing fun d => (d.addSegment start stop x.line true none).addPoint stop start).Stroke
      slot sorted (ran ++ [x]) (p.addPoint stop) := by
  have hcurrent : (c.drawing.addSegment start stop x.line true none).current = some p := h.current
  have hadd : (c.drawing.addSegment start stop x.line true none).addPoint stop start =
      { c.drawing.addSegment start stop x.line true none with
        current := some (p.addPoint stop) } := by
    rw [Drawing.addPoint, Drawing.ensurePolygon_of_current hcurrent h.isEmpty, Drawing.onCurrent,
      hcurrent]
    rfl
  simp only [Canvas.onDrawing, hadd]
  refine ⟨h.polygons, rfl, ?_, ?_, ?_, h.waiting, h.free, h.pinned⟩
  · simp [Polygon.addPoint, Drawing.addSegment, h.points]
  · simp [Drawing.addSegment, h.lines, hpoint]
  · exact h.reached_snoc hline

/-- Between the commands that ran and the next one, the place of a comment is where the open polygon
takes it. -/
theorem slot_above {x : Command} {rest : List Command} {comments : List Comment} {d : Comment}
    (h : c.Stroke slot sorted ran p)
    (hlines : (ran ++ x :: rest).Pairwise fun y z => y.line ≤ z.line) (hd : d ∈ comments)
    (hhigh : c.queue.cursor ≤ d.line) (hlow : d.line < x.line) :
    strokeSlot (ran ++ x :: rest) comments d.line =
      if p.isSeed && !x.kind.makesPoint then none else some p.nextSlot := by
  have hbefore : ∀ y ∈ ran, y.line ≤ d.line := fun y hy => Int.le_trans (h.reached y hy) hhigh
  have hafter : ∀ y ∈ x :: rest, d.line < y.line := by
    intro y hy
    obtain rfl | hy := List.mem_cons.mp hy
    · exact hlow
    · have hxy := (List.pairwise_cons.mp (List.pairwise_append.mp hlines).2.1).1 y hy
      omega
  by_cases hseed : p.isSeed = true
  · rw [strokeSlot_of_no_points hd hbefore hafter (h.isSeed_iff.mp hseed), Polygon.nextSlot, hseed]
    cases x.kind.makesPoint <;> rfl
  · have hpoints : 0 < ran.countP (·.kind.makesPoint) :=
      Nat.pos_of_ne_zero (mt h.isSeed_iff.mpr hseed)
    rw [strokeSlot_of_points hbefore hafter hpoints, Polygon.nextSlot, h.size]
    simp [hseed]

/-- At the end of the run the comments that are left go behind the last point. -/
theorem finish (h : c.Stroke slot sorted ran p)
    (hs : sorted.Pairwise fun d e => d.line ≤ e.line) (hseed : p.isSeed = false)
    (hslot : ∀ d ∈ sorted, c.queue.cursor ≤ d.line → slot d.line = some p.nextSlot) :
    ∃ q, c.finish.drawing.polygons = #[q] ∧ c.finish.drawing.segments = c.drawing.segments ∧
      q.commentOnly = false ∧ q.points = p.points ∧ q.free.toList = inFront slot sorted ∧
      q.pinned.toList = atPoints slot sorted := by
  have htakes : p.Takes slot c.queue.waiting (p.addComments c.queue.remaining) := by
    refine Polygon.takes_addComments fun d hd => ?_
    rw [h.waiting, List.mem_filter] at hd
    rw [hslot d hd.1 (of_decide_eq_true hd.2), hseed]
    rfl
  have hsorted := filter_append_of_ascending Comment.line hs c.queue.cursor
  have hflush : c.flushAll.drawing =
      { c.drawing with current := some (p.addComments c.queue.remaining) } :=
    Drawing.place_of_current h.current _
  have hstays : (p.addComments c.queue.remaining).isSeed = false := by
    rw [Polygon.isSeed, htakes.points]
    exact hseed
  obtain ⟨p', hp', hseed', -⟩ | ⟨untraced, -, huntraced, hfinish⟩ := c.finish_cases
  · rw [h.current] at hp'
    cases hp'
    rw [hseed] at hseed'
    cases hseed'
  · have hmade : untraced = false := by rw [huntraced, hflush]; simp [hstays]
    have hdrawing : c.finish.drawing =
        ({ c.drawing with current := some (p.addComments c.queue.remaining) } :
          Drawing).finishPolygon false none := by
      rw [hfinish, hmade, Canvas.onDrawing, hflush]
    rw [hdrawing]
    refine ⟨_, congrArg (Array.push · _) h.polygons, rfl, ?_, htakes.points, ?_, ?_⟩
    · simp only [htakes.points, h.isEmpty, Bool.or_false]
    · rw [htakes.free, h.free, h.waiting, ← inFront_append, hsorted]
    · rw [htakes.pinned, h.pinned, h.waiting, ← atPoints_append, hsorted]

end Canvas.Stroke

/-! ## Runs -/

/-- An action that keeps the stroke leaves the pen as it is, and traces a line if it makes a point. -/
theorem Machine.act_of_keepsStroke {m m' : Machine} {action : Action} {line : Int}
    (hkeeps : action.keepsStroke = true) (h : m.act action line = .done m') :
    m'.turtle.penDown = m.turtle.penDown ∧
      (action.kind.makesPoint = false ∧ m'.canvas = m.canvas ∨
        action.kind.makesPoint = true ∧ ∃ p, m'.canvas = (m.lineTo p line).canvas) := by
  have hsilent : action.isSilent = true := by
    cases action <;> first | rfl | cases hkeeps
  cases change_of_act h with
  | skip _ still => exact ⟨rfl, .inl ⟨still, rfl⟩⟩
  | bind _ _ _ still => exact ⟨rfl, .inl ⟨still, rfl⟩⟩
  | steer _ t _ pen _ still => exact ⟨pen, .inl ⟨still, rfl⟩⟩
  | move _ p moves => exact ⟨rfl, .inr ⟨moves, p, rfl⟩⟩
  | home => exact ⟨rfl, .inr ⟨rfl, .origin, rfl⟩⟩
  | penUp | penDown | flatArc | arc | marker => cases hkeeps
  | note written =>
    rw [noteOf_of_isSilent m hsilent] at written
    cases written

/-- An action that keeps the stroke runs no body. -/
theorem Machine.act_ne_enter {m m' : Machine} {action : Action} {line : Int} {frame : Frame}
    {body : List Command} (hkeeps : action.keepsStroke = true) :
    m.act action line ≠ .enter frame body m' := by
  intro h
  cases entry_of_act h with
  | loop => cases hkeeps
  | list runs =>
    cases action with
    | repeatNamed | call => cases hkeeps
    | _ => cases runs

/-- The state of a run after commands of one stroke. Nothing is pinned before the first point is made:
what is pinned to it is placed together with it. -/
structure Machine.OnStroke (slot : Int → Option Int) (sorted : List Comment) (ran : List Command)
    (m : Machine) : Prop where
  pen : m.turtle.penDown = true
  stroke : ∃ p, m.canvas.Stroke slot sorted ran p ∧ (p.isSeed = true → p.pinned = #[])

section Run

variable {limits : Limits} {commands : List Command} {comments : List Comment} {m m' : Machine}

theorem onStroke_start (resolution : Int) (slot : Int → Option Int)
    (h : ∀ c ∈ comments, 1 ≤ c.line) :
    (Machine.start resolution comments).OnStroke slot (sortOn Comment.line comments) [] := by
  have hlines : ∀ c ∈ sortOn Comment.line comments, 1 ≤ c.line := fun c hc =>
    h c ((sortOn_perm Comment.line comments).mem_iff.mp hc)
  have hnone : ((sortOn Comment.line comments).filter fun d => decide (d.line < 1)) = [] :=
    List.filter_eq_nil_iff.mpr fun c hc hlow => by
      have := hlines c hc
      have := of_decide_eq_true hlow
      omega
  refine ⟨rfl, .seeded .origin, ⟨rfl, rfl, rfl, rfl, nofun, ?_, ?_, ?_⟩, fun _ => rfl⟩
  · exact (List.filter_eq_self.mpr fun c hc => decide_eq_true (hlines c hc)).symm
  · exact (congrArg (inFront slot) hnone).symm
  · exact (congrArg (atPoints slot) hnone).symm

/-- One command of the stroke. -/
theorem Machine.OnStroke.step {slot : Int → Option Int} {sorted : List Comment}
    {ran : List Command} {x : Command} {room depth : Nat} (h : m.OnStroke slot sorted ran)
    (hs : sorted.Pairwise fun d e => d.line ≤ e.line) (hkeeps : x.action.keepsStroke = true)
    (hslot : ∀ p, m.canvas.Stroke slot sorted ran p → ∀ d ∈ sorted,
      m.canvas.queue.cursor ≤ d.line → d.line < x.line →
        slot d.line = if p.isSeed && !x.kind.makesPoint then none else some p.nextSlot)
    (hrun : runCommand limits room depth x m = .done m') : m'.OnStroke slot sorted (ran ++ [x]) := by
  obtain ⟨hpen, p, hp, hclear⟩ := h
  obtain ⟨q, hq, hline, hqclear⟩ :=
    hp.beforeCommand hs hclear (hslot p hp) m.turtle.position
  have hready : (Visit.ready ⟨x, m⟩).canvas =
      m.canvas.beforeCommand x.kind x.line true m.turtle.position := by
    rw [← hpen]
    rfl
  have hact : (Visit.ready ⟨x, m⟩).act x.action x.line = .done m' := by
    obtain hstart | ⟨frame, body, n, inner, hstart, -⟩ := runCommand_eq_done hrun
    · exact Visit.act_ready (v := ⟨x, m⟩) hstart fun _ _ => nofun
    · have henter := Visit.act_ready (v := ⟨x, m⟩) hstart fun _ _ => nofun
      exact absurd henter (Machine.act_ne_enter hkeeps)
  obtain ⟨hpen', ⟨hpoint, hcanvas⟩ | ⟨hpoint, point, hcanvas⟩⟩ :=
    Machine.act_of_keepsStroke hkeeps hact
  · refine ⟨hpen'.trans hpen, q, ?_, hqclear hpoint⟩
    rw [hcanvas, hready]
    exact hq.still hline hpoint
  · refine ⟨hpen'.trans hpen, q.addPoint point, ?_, fun hseed => ?_⟩
    · have hready' : (Visit.ready ⟨x, m⟩).turtle.penDown = true := hpen
      rw [hcanvas, Machine.lineTo, hready, hready']
      exact hq.trace hline hpoint _ _
    · -- A polygon with a point beside the origin is no seed.
      have hsize := hq.size
      simp only [Polygon.isSeed, Polygon.addPoint, Array.size_push, decide_eq_true_eq] at hseed
      omega

/-- Commands of one stroke, run after those that ran before. -/
theorem onStroke_of_runAll {ran rest : List Command} {room depth : Nat}
    (hsplit : commands = ran ++ rest) (hlines : commands.Pairwise fun x y => x.line ≤ y.line)
    (hkeeps : ∀ x ∈ rest, x.action.keepsStroke = true)
    (h : m.OnStroke (strokeSlot commands comments) (sortOn Comment.line comments) ran)
    (hrun : runAll (runCommand limits room depth) rest m = .done m') :
    m'.OnStroke (strokeSlot commands comments) (sortOn Comment.line comments) commands := by
  have hs := (isStableSort_sortOn Comment.line comments).ascending
  induction rest generalizing ran m with
  | nil =>
    cases hrun
    rw [List.append_nil] at hsplit
    rwa [← hsplit] at h
  | cons x rest ih =>
    unfold runAll at hrun
    cases hx : runCommand limits room depth x m with
    | failed failure n =>
      rw [hx] at hrun
      cases hrun
    | done n =>
      rw [hx] at hrun
      have hslot : ∀ p,
          m.canvas.Stroke (strokeSlot commands comments) (sortOn Comment.line comments) ran p →
          ∀ d ∈ sortOn Comment.line comments, m.canvas.queue.cursor ≤ d.line → d.line < x.line →
            strokeSlot commands comments d.line =
              if p.isSeed && !x.kind.makesPoint then none else some p.nextSlot := by
        intro p hp d hd hhigh hlow
        rw [hsplit] at hlines ⊢
        exact hp.slot_above hlines ((sortOn_perm Comment.line comments).mem_iff.mp hd) hhigh hlow
      have hn := h.step hs (hkeeps x List.mem_cons_self) hslot hx
      refine ih ?_ (fun y hy => hkeeps y (List.mem_cons_of_mem x hy)) hn hrun
      rw [hsplit, List.append_assoc, List.singleton_append]

end Run

/-- A run of commands that keep to one stroke, on lines that do not go back, with a command among them
that makes a point, finishes exactly one polygon. Its points are the origin and what the commands that
make a point have traced, one each. Every comment of the source is in it at the place that its line
gives, and at each place the comments are in the order of the source. -/
theorem comments_of_one_stroke (limits : Limits) (resolution : Int) (commands : List Command)
    (comments : List Comment) (m : Machine)
    (hkeeps : ∀ x ∈ commands, x.action.keepsStroke = true)
    (hlines : commands.Pairwise fun x y => x.line ≤ y.line)
    (hpoint : ∃ x ∈ commands, x.kind.makesPoint = true) (hcomments : ∀ c ∈ comments, 1 ≤ c.line)
    (h : execute limits resolution commands comments = .done m) :
    ∃ sorted p, IsStableSort Comment.line comments sorted ∧ m.drawing.polygons = #[p] ∧
      p.commentOnly = false ∧
      p.points.toList = .origin :: m.drawing.segments.toList.map (·.stop) ∧
      m.drawing.segments.toList.map (·.line) =
        (commands.filter (·.kind.makesPoint)).map (·.line) ∧
      p.free.toList = inFront (strokeSlot commands comments) sorted ∧
      p.pinned.toList = atPoints (strokeSlot commands comments) sorted := by
  have hsort := isStableSort_sortOn Comment.line comments
  obtain ⟨n, hn, rfl⟩ := execute_eq_done h
  obtain ⟨-, p, hp, -⟩ := onStroke_of_runAll (List.nil_append commands).symm hlines hkeeps
    (onStroke_start resolution _ hcomments) hn
  have hcount : 0 < commands.countP (·.kind.makesPoint) := List.countP_pos_iff.mpr hpoint
  have hseed : p.isSeed = false :=
    Bool.eq_false_iff.mpr fun hseed => Nat.ne_of_gt hcount (hp.isSeed_iff.mp hseed)
  have hslot : ∀ d ∈ sortOn Comment.line comments, n.canvas.queue.cursor ≤ d.line →
      strokeSlot commands comments d.line = some p.nextSlot := by
    intro d _ hhigh
    have hbefore : ∀ y ∈ commands, y.line ≤ d.line := fun y hy =>
      Int.le_trans (hp.reached y hy) hhigh
    have hlast : strokeSlot (commands ++ []) comments d.line = _ :=
      strokeSlot_of_points hbefore (by simp) hcount
    rw [List.append_nil] at hlast
    rw [hlast, Polygon.nextSlot, hseed, hp.size]
    simp
  obtain ⟨q, hpolygons, hsegments, honly, hpoints, hfree, hpinned⟩ :=
    hp.finish hsort.ascending hseed hslot
  have hdrawing : n.finish.drawing = n.canvas.finish.drawing := rfl
  refine ⟨_, q, hsort, hpolygons, honly, ?_, ?_, hfree, hpinned⟩
  · rw [hpoints, hdrawing, hsegments]
    exact hp.points
  · rw [hdrawing, hsegments]
    exact hp.lines

/-- Comments in front, at the first point, beside commands, between points and behind the last one; they
are given out of order. -/
theorem comments_of_crowded_stroke :
    let commands : List Command :=
      [⟨.right (.number 90), 2⟩, ⟨.left (.number 90), 4⟩, ⟨.setX (.number 10), 5⟩,
        ⟨.setY (.number 5), 5⟩, ⟨.makeNumber "n".toList (.number 1), 7⟩, ⟨.home, 9⟩]
    let comments : List Comment :=
      [⟨"# end".toList, 12, none⟩, ⟨"# front".toList, 1, none⟩, ⟨"# beside".toList, 2, none⟩,
        ⟨"# first".toList, 4, none⟩, ⟨"# two".toList, 5, none⟩, ⟨"# between".toList, 8, none⟩]
    comments.map (fun c => strokeSlot commands comments c.line) =
        [some 4, none, none, some 0, some 3, some 3] ∧
      ∃ m, execute {} 40 commands comments = .done m ∧
        ∃ sorted p, IsStableSort Comment.line comments sorted ∧ m.drawing.polygons = #[p] ∧
          p.free.toList = inFront (strokeSlot commands comments) sorted ∧
          p.pinned.toList = atPoints (strokeSlot commands comments) sorted := by
  intro commands comments
  refine ⟨by decide +kernel, ?_⟩
  refine (Outcome.exists_of_isDone (by decide +kernel)).imp fun m h => ⟨h, ?_⟩
  obtain ⟨sorted, p, hsort, hpolygons, -, -, -, hfree, hpinned⟩ :=
    comments_of_one_stroke {} 40 commands comments m (by decide +kernel) (by decide +kernel)
      (by decide +kernel) (by decide +kernel) h
  exact ⟨sorted, p, hsort, hpolygons, hfree, hpinned⟩

end TurtleTrace
