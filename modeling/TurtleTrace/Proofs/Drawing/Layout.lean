import TurtleTrace.Scad
import TurtleTrace.Proofs.Sorting

/-!
# The layout of a block

The lines that a polygon is written in are its comments and the lines of its geometry. A layout tells
them apart. Comments do not change the geometry: without them the same polygon is written in the lines
that are left. A pinned comment stands right before the point that its slot counts, where the point
that closes the ring counts too, and behind all points if there are too few of them.

* `Scad.Line`: a line of a block with what it is.
* `Scad.RingOf`: which points are written for a polygon.
* `Scad.polygonLayout`: points and pinned comments, each at its place.
* `Scad.IsLayout`: what a layout says about the lines of a polygon.
-/

namespace TurtleTrace

set_option autoImplicit false

/-- The same polygon without its comments. -/
def Polygon.uncommented (p : Polygon) : Polygon := { p with free := #[], pinned := #[] }

namespace Scad

/-- A line of a block: a comment, with its slot if it is pinned, or a line of the geometry. -/
inductive Line where
  | free (text : Text)
  | pinned (slot : Int) (text : Text)
  | geometry (text : Text)
  deriving DecidableEq, Repr

namespace Line

def text : Line → Text
  | free text => text
  | pinned _ text => text
  | geometry text => text

/-- The slot and the text of a comment; a free comment has no slot. -/
def comment? : Line → Option (Option Int × Text)
  | free text => some (none, text)
  | pinned slot text => some (some slot, text)
  | geometry _ => none

def geometry? : Line → Option Text
  | geometry text => some text
  | _ => none

def ofPinned (x : Int × Text) : Line := pinned x.1 x.2

theorem text_ofPinned (xs : List (Int × Text)) :
    (xs.map ofPinned).map text = xs.map Prod.snd := by
  rw [List.map_map]
  rfl

theorem comment?_ofPinned (xs : List (Int × Text)) :
    (xs.map ofPinned).filterMap comment? = xs.map fun x => (some x.1, x.2) := by
  rw [List.filterMap_map, ← List.filterMap_eq_map]
  rfl

theorem geometry?_ofPinned (xs : List (Int × Text)) :
    (xs.map ofPinned).filterMap geometry? = [] := by
  rw [List.filterMap_map]
  exact List.filterMap_eq_nil_iff.mpr fun _ _ => rfl

end Line

/-! ## The points of a ring -/

/-- The points that are written for a polygon: its own, and a copy of the first one if it differs from
the last. A polygon without points is the origin alone. -/
inductive RingOf : List Point → List Point → Prop where
  | origin : RingOf [] [.origin]
  | closed {points : List Point} {first last : Point} (starts : points.head? = some first)
      (ends : points.getLast? = some last) (same : (first.x == last.x && first.y == last.y) = true) :
      RingOf points points
  | closing {points : List Point} {first last : Point} (starts : points.head? = some first)
      (ends : points.getLast? = some last) (apart : (first.x != last.x || first.y != last.y) = true) :
      RingOf points (points ++ [first])

theorem ringOf_ring (points : List Point) : RingOf points (ring points) := by
  cases points with
  | nil => exact .origin
  | cons first rest =>
    have hlast : (first :: rest).getLast? = some (rest.getLastD first) := by
      rw [List.getLast?_cons, List.getLastD_eq_getLast?]
    unfold ring
    dsimp only
    split
    · rename_i hapart
      exact .closing rfl hlast hapart
    · rename_i hsame
      refine .closed rfl hlast ?_
      simpa [bne] using hsame

/-! ## Points with their comments -/

/-- The comments that are pinned from a slot on. -/
def pinnedFrom (pinned : List (Int × Text)) (slot : Int) : List (Int × Text) :=
  pinned.filter fun c => slot ≤ c.1

/-- The lines of points that are counted from `first` on, each with the comments of its slot in
front. -/
def pointLayout (margin : Text) (pinned : List (Int × Text)) (first : Nat) (points : List Point) :
    List Line :=
  (points.zipIdx first).flatMap fun x =>
    (pinned.filter fun c => c.1 = (x.2 : Int)).map Line.ofPinned ++
      [.geometry (margin ++ pointText x.1 ++ if x.2 + 1 = first + points.length then [] else [','])]

/-- The lines of a `polygon` statement. -/
def polygonLayout (margin : Text) (pinned : List (Int × Text)) (points : List Point) : List Line :=
  .geometry "polygon(points=[".toList ::
    (pointLayout margin pinned 0 points ++ (pinnedFrom pinned points.length).map Line.ofPinned ++
      [.geometry "]);".toList])

theorem pointLayout_cons (margin : Text) (pinned : List (Int × Text)) (first : Nat) (p : Point)
    (rest : List Point) :
    pointLayout margin pinned first (p :: rest) =
      (pinned.filter fun c => c.1 = (first : Int)).map Line.ofPinned ++
        .geometry (margin ++ pointText p ++ if rest.isEmpty then [] else [',']) ::
          pointLayout margin pinned (first + 1) rest := by
  have hcount : first + (rest.length + 1) = first + 1 + rest.length := by omega
  have hlast : (first + 1 = first + (rest.length + 1)) ↔ rest.isEmpty = true := by
    rw [List.isEmpty_iff_length_eq_zero]
    omega
  unfold pointLayout
  rw [List.zipIdx_cons, List.flatMap_cons, List.length_cons]
  simp only [hlast]
  simp only [hcount, List.append_assoc, List.singleton_append]

section Ascending

variable {pinned : List (Int × Text)}

/-- Taking the comments of a slot off the front of those that are left leaves those of later slots. -/
theorem span_pinnedFrom (h : pinned.Pairwise (fun x y => x.1 ≤ y.1)) (slot : Int) :
    (pinnedFrom pinned slot).takeWhile (·.1 == slot) = pinned.filter (fun c => c.1 = slot) ∧
      (pinnedFrom pinned slot).dropWhile (·.1 == slot) = pinnedFrom pinned (slot + 1) := by
  have hfrom : (pinnedFrom pinned slot).Pairwise (fun x y => x.1 ≤ y.1) :=
    h.sublist List.filter_sublist
  -- Among the comments from the slot on, those of the slot are those below the next one.
  have hbelow : ∀ c ∈ pinnedFrom pinned slot, (c.1 == slot) = decide (c.1 < slot + 1) := by
    intro c hc
    have hslot : slot ≤ c.1 := of_decide_eq_true (List.mem_filter.mp hc).2
    rw [Bool.beq_eq_decide_eq]
    exact decide_eq_decide.mpr (by omega)
  obtain ⟨htake, hdrop⟩ := span_of_ascending Prod.fst hfrom hbelow
  rw [htake, hdrop, pinnedFrom, pinnedFrom, List.filter_filter, List.filter_filter]
  constructor
  · refine List.filter_congr fun c _ => ?_
    rw [← Bool.decide_and]
    exact decide_eq_decide.mpr (by omega)
  · refine List.filter_congr fun c _ => ?_
    rw [← Bool.decide_and]
    exact decide_eq_decide.mpr (by omega)

/-- The comments from a slot on are those of the slot, and then those of the later ones. -/
theorem pinnedFrom_eq_append (h : pinned.Pairwise (fun x y => x.1 ≤ y.1)) (slot : Int) :
    pinnedFrom pinned slot = pinned.filter (fun c => c.1 = slot) ++ pinnedFrom pinned (slot + 1) := by
  obtain ⟨htake, hdrop⟩ := span_pinnedFrom h slot
  rw [← htake, ← hdrop, List.takeWhile_append_dropWhile]

/-- Points are written with the comments that are left as the layout has them. -/
theorem pointLines_eq (h : pinned.Pairwise (fun x y => x.1 ≤ y.1)) (margin : Text) (first : Nat)
    (points : List Point) :
    pointLines margin first points (pinnedFrom pinned first) =
      (pointLayout margin pinned first points ++
        (pinnedFrom pinned (first + points.length)).map Line.ofPinned).map Line.text := by
  induction points generalizing first with
  | nil =>
    rw [pointLines, List.map_append, Line.text_ofPinned, List.length_nil, Int.natCast_zero,
      Int.add_zero]
    rfl
  | cons p rest ih =>
    obtain ⟨hhere, hlater⟩ := span_pinnedFrom h first
    have hnext : (first : Int) + ((rest.length + 1 : Nat) : Int) = first + 1 + rest.length := by omega
    have hrest := ih (first + 1)
    rw [Int.natCast_succ] at hrest
    rw [pointLines, hhere, hlater, hrest, pointLayout_cons, List.length_cons, hnext]
    simp only [List.map_append, List.map_cons, List.append_assoc, List.cons_append,
      Line.text_ofPinned]
    rfl

/-- The comments of the points in turn, and then those for points that there are not, are all comments
in order. -/
theorem comments_pointLayout (h : pinned.Pairwise (fun x y => x.1 ≤ y.1)) (margin : Text)
    (first : Nat) (points : List Point) :
    (pointLayout margin pinned first points).filterMap Line.comment? ++
        (pinnedFrom pinned (first + points.length)).map (fun c => (some c.1, c.2)) =
      (pinnedFrom pinned first).map fun c => (some c.1, c.2) := by
  induction points generalizing first with
  | nil =>
    rw [List.length_nil, Int.natCast_zero, Int.add_zero]
    rfl
  | cons p rest ih =>
    have hnext : (first : Int) + ((rest.length + 1 : Nat) : Int) = (first + 1 : Nat) + rest.length := by
      omega
    rw [pinnedFrom_eq_append h first, pointLayout_cons, List.length_cons, hnext,
      List.filterMap_append, List.filterMap_cons, Line.comment?_ofPinned, List.append_assoc,
      List.map_append]
    exact congrArg _ (ih (first + 1))

end Ascending

/-- Comments do not change the lines of points. -/
theorem geometry_pointLayout (margin : Text) (pinned : List (Int × Text)) (first : Nat)
    (points : List Point) :
    (pointLayout margin pinned first points).filterMap Line.geometry? =
      (pointLayout margin [] first points).map Line.text := by
  induction points generalizing first with
  | nil => rfl
  | cons p rest ih =>
    rw [pointLayout_cons, pointLayout_cons, List.filterMap_append, Line.geometry?_ofPinned,
      List.filterMap_cons, List.filter_nil]
    exact congrArg (List.cons _) (ih (first + 1))

/-! ## Blocks -/

/-- Whether the geometry of a polygon is written as a `polygon` statement. -/
def WritesPolygon (style : Style) (polygon : Polygon) : Prop :=
  polygon.commentOnly = false ∧ (polygon.circle = none ∨ style.circles = false)

/-- What a layout says about the lines of a polygon, where `pinned` are the pinned comments by ascending
slot. Each comment is there once, and the rest is written for the polygon without comments too. -/
structure IsLayout (style : Style) (polygon : Polygon) (pinned : List (Int × Text))
    (layout : List Line) : Prop where
  lines : blockLines style polygon = layout.map Line.text
  once : pinned.Perm polygon.pinned.toList
  inOrder : IsStableSort Prod.fst polygon.pinned.toList pinned
  comments : layout.filterMap Line.comment? =
    polygon.free.toList.map (fun text => (none, text)) ++ pinned.map fun c => (some c.1, c.2)
  geometry : layout.filterMap Line.geometry? = blockLines style polygon.uncommented
  places : WritesPolygon style polygon → ∃ points, RingOf polygon.points.toList points ∧
    layout = polygon.free.toList.map .free ++ polygonLayout style.margin pinned points

variable {style : Style} {polygon : Polygon}

theorem ascending_pinnedInOrder (polygon : Polygon) :
    polygon.pinnedInOrder.Pairwise (fun x y => x.1 ≤ y.1) :=
  (isStableSort_sortOn Prod.fst polygon.pinned.toList).ascending

theorem polygonLines_eq (style : Style) (polygon : Polygon) :
    polygonLines style polygon =
      (polygonLayout style.margin polygon.pinnedInOrder (ring polygon.points.toList)).map
        Line.text := by
  have hdrop : polygon.pinnedInOrder.dropWhile (·.1 < 0) = pinnedFrom polygon.pinnedInOrder 0 :=
    (span_of_ascending Prod.fst (ascending_pinnedInOrder polygon) fun _ _ => rfl).2
  have hpoints := pointLines_eq (ascending_pinnedInOrder polygon) style.margin 0
    (ring polygon.points.toList)
  rw [Int.natCast_zero, Int.zero_add] at hpoints
  simp only [polygonLines, polygonLayout, hdrop, hpoints, List.map_cons, List.map_append]
  rfl

theorem comments_polygonLayout (h : ∀ c ∈ polygon.pinned.toList, 0 ≤ c.1) (margin : Text)
    (points : List Point) :
    (polygonLayout margin polygon.pinnedInOrder points).filterMap Line.comment? =
      polygon.pinnedInOrder.map fun c => (some c.1, c.2) := by
  have hall : pinnedFrom polygon.pinnedInOrder 0 = polygon.pinnedInOrder := by
    refine List.filter_eq_self.mpr fun c hc => decide_eq_true (h c ?_)
    exact (sortOn_perm Prod.fst polygon.pinned.toList).mem_iff.mp hc
  have hpoints := comments_pointLayout (ascending_pinnedInOrder polygon) margin 0 points
  rw [Int.natCast_zero, Int.zero_add, hall] at hpoints
  rw [← hpoints, polygonLayout, List.filterMap_cons, List.filterMap_append, List.filterMap_append,
    Line.comment?_ofPinned]
  exact List.append_nil _

theorem geometry_polygonLayout (margin : Text) (pinned : List (Int × Text)) (points : List Point) :
    (polygonLayout margin pinned points).filterMap Line.geometry? =
      (polygonLayout margin [] points).map Line.text := by
  rw [polygonLayout, polygonLayout, List.filterMap_cons, List.filterMap_append,
    List.filterMap_append, Line.geometry?_ofPinned, geometry_pointLayout, List.map_cons,
    List.map_append, List.map_append]
  rfl

theorem geometryLines_of_commentOnly (style : Style) (h : polygon.commentOnly = true) :
    geometryLines style polygon = [] :=
  if_pos h

theorem geometryLines_of_circle {circle : Circle} (h : polygon.commentOnly = false)
    (hcircle : polygon.circle = some circle) (hstyle : style.circles = true) :
    geometryLines style polygon = circleLines style polygon circle := by
  simp only [geometryLines, h, hcircle, hstyle, Bool.false_eq_true, if_false, if_true]

theorem geometryLines_of_polygon (h : WritesPolygon style polygon) :
    geometryLines style polygon = polygonLines style polygon := by
  obtain ⟨hgeometry, hcircle⟩ := h
  simp only [geometryLines, hgeometry, Bool.false_eq_true, if_false]
  split
  · rename_i circle hsome
    rw [hsome] at hcircle
    exact if_neg (by simpa using hcircle)
  · rfl

theorem circle_of_not_writesPolygon (h : polygon.commentOnly = false)
    (hwrites : ¬ WritesPolygon style polygon) :
    ∃ circle, polygon.circle = some circle ∧ style.circles = true := by
  cases hcircle : polygon.circle with
  | none => exact absurd ⟨h, .inl hcircle⟩ hwrites
  | some circle =>
    refine ⟨circle, rfl, (Bool.not_eq_false _).mp fun hstyle => ?_⟩
    exact hwrites ⟨h, .inr hstyle⟩

/-- A layout of the geometry becomes one of the block with the free comments in front. -/
theorem isLayout_of_geometry (rest : List Line)
    (hlines : geometryLines style polygon = rest.map Line.text)
    (hcomments : rest.filterMap Line.comment? = polygon.pinnedInOrder.map fun c => (some c.1, c.2))
    (hgeometry : rest.filterMap Line.geometry? = geometryLines style polygon.uncommented)
    (hplaces : WritesPolygon style polygon →
      rest = polygonLayout style.margin polygon.pinnedInOrder (ring polygon.points.toList)) :
    IsLayout style polygon polygon.pinnedInOrder (polygon.free.toList.map .free ++ rest) where
  lines := by
    rw [blockLines, hlines, List.map_append, List.map_map]
    exact congrArg (· ++ _) (List.map_id _).symm
  once := sortOn_perm _ _
  inOrder := isStableSort_sortOn _ _
  comments := by
    rw [List.filterMap_append, hcomments, List.filterMap_map]
    exact congrArg (· ++ _) (congrFun List.filterMap_eq_map polygon.free.toList)
  geometry := by
    rw [List.filterMap_append, hgeometry, List.filterMap_map]
    exact congrArg (· ++ _) (List.filterMap_eq_nil_iff.mpr fun _ _ => rfl)
  places h := ⟨_, ringOf_ring _, by rw [hplaces h]⟩

/-- A polygon is written in its free comments, then its pinned comments by ascending slot, each once,
and the lines that the polygon has without comments. In a `polygon` statement a pinned comment stands
right before the point that its slot counts, or behind all points. -/
theorem exists_layout (style : Style) (polygon : Polygon)
    (hslots : ∀ c ∈ polygon.pinned.toList, 0 ≤ c.1)
    (honly : polygon.commentOnly = true → polygon.pinned = #[]) :
    ∃ pinned layout, IsLayout style polygon pinned layout := by
  refine ⟨polygon.pinnedInOrder, ?_⟩
  cases hgeometry : polygon.commentOnly with
  | true =>
    have hbare : polygon.uncommented.commentOnly = true := hgeometry
    have hnone : polygon.pinnedInOrder = [] := by
      rw [Polygon.pinnedInOrder, honly hgeometry]
      rfl
    refine ⟨_, isLayout_of_geometry [] ?_ ?_ ?_ fun h => ?_⟩
    · exact geometryLines_of_commentOnly style hgeometry
    · rw [hnone]
      rfl
    · exact (geometryLines_of_commentOnly style hbare).symm
    · rw [h.1] at hgeometry
      cases hgeometry
  | false =>
    have hbare : polygon.uncommented.commentOnly = false := hgeometry
    by_cases hwrites : WritesPolygon style polygon
    · have hwrites' : WritesPolygon style polygon.uncommented := hwrites
      refine ⟨_, isLayout_of_geometry _ ?_ (comments_polygonLayout hslots _ _) ?_ fun _ => rfl⟩
      · rw [geometryLines_of_polygon hwrites, polygonLines_eq]
      · rw [geometryLines_of_polygon hwrites', polygonLines_eq, geometry_polygonLayout]
        rfl
    · obtain ⟨circle, hcircle, hstyle⟩ := circle_of_not_writesPolygon hgeometry hwrites
      refine ⟨_, isLayout_of_geometry (polygon.pinnedInOrder.map .ofPinned ++
        (circleLines style polygon.uncommented circle).map .geometry) ?_ ?_ ?_ (absurd · hwrites)⟩
      · rw [geometryLines_of_circle hgeometry hcircle hstyle, List.map_append, Line.text_ofPinned]
        rfl
      · rw [List.filterMap_append, Line.comment?_ofPinned]
        exact List.append_nil _
      · rw [geometryLines_of_circle hbare hcircle hstyle, List.filterMap_append,
          Line.geometry?_ofPinned]
        rfl

/-- Three points that do not close, with comments before the first point, before the copy that closes
the ring and behind it, pinned out of order. -/
theorem layout_of_open_corner :
    let polygon : Polygon :=
      { points := #[⟨0, 0⟩, ⟨10, 0⟩, ⟨10, 5⟩]
        free := #["# a".toList]
        pinned := #[(7, "# e".toList), (0, "# b".toList), (3, "# d".toList), (0, "# c".toList)] }
    (∀ c ∈ polygon.pinned.toList, 0 ≤ c.1) ∧ WritesPolygon {} polygon ∧
      ∃ pinned layout, IsLayout {} polygon pinned layout := by
  intro polygon
  have hslots : ∀ c ∈ polygon.pinned.toList, 0 ≤ c.1 := by decide
  exact ⟨hslots, ⟨rfl, .inl rfl⟩, exists_layout {} polygon hslots nofun⟩

end Scad

end TurtleTrace
