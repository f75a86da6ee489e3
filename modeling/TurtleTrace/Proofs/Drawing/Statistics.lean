import Mathlib.Data.Finset.Card
import TurtleTrace.Proofs.Drawing.Segments
import TurtleTrace.Proofs.Number.Order
import TurtleTrace.Session

/-!
# Statistics and bounds of what was drawn

A drawing keeps its lengths and its index of lines up to date with every segment that it logs. They
are nevertheless those of the segments: at the end of a run the statistics can be counted off the
segments, polygons and markers alone, and the bounding box is the box around the segments and markers.

* `Result.statistics`, `Result.IsBoundedBy`: what a result says about itself.
* `Drawing.Tallied`: lengths and index are those of the segments.
-/

namespace TurtleTrace

set_option autoImplicit false

/-! ## Results -/

namespace Result

/-- The lengths of some of the segments, added up in the order of tracing. -/
def lengthOf (r : Result) (counts : Segment → Bool) : Float :=
  (r.segments.toList.filter counts).foldl (fun sum s => sum + s.length) 0

/-- The statistics of a result, counted off its segments, polygons and markers. -/
def statistics (r : Result) : Drawing.Statistics :=
  { segments := r.segments.toList.length
    penDownSegments := r.segments.toList.countP (·.penDown)
    penUpSegments := r.segments.toList.countP (!·.penDown)
    arcSegments := r.segments.toList.countP (·.arcGroup.isSome)
    arcGroups := (r.segments.toList.filterMap (·.arcGroup)).toFinset.card
    totalLength := r.lengthOf fun _ => true
    penDownLength := r.lengthOf (·.penDown)
    penUpLength := r.lengthOf (!·.penDown)
    polygons := r.polygons.toList.countP (!·.commentOnly)
    commentOnlyPolygons := r.polygons.toList.countP (·.commentOnly)
    markers := r.markers.toList.length
    lines := (r.segments.toList.map (·.line)).toFinset.card }

/-- The ends of the segments and the markers. -/
def points (r : Result) : List Point :=
  r.segments.toList.flatMap (fun s => [s.start, s.stop]) ++ r.markers.toList.map (·.position)

end Result

/-- A value of a list with no other in front of it. -/
def Extreme (before : Float → Float → Prop) (v : Float) (vs : List Float) : Prop :=
  v ∈ vs ∧ ∀ w ∈ vs, ¬ before w v

/-- The box touches the points on each side and leaves none outside; without points it is the origin. -/
def Result.IsBoundedBy (r : Result) (box : Point × Point) : Prop :=
  if r.points = [] then box = (.origin, .origin)
  else
    Extreme (· < ·) box.1.x (r.points.map (·.x)) ∧ Extreme (· < ·) box.1.y (r.points.map (·.y)) ∧
      Extreme (· > ·) box.2.x (r.points.map (·.x)) ∧ Extreme (· > ·) box.2.y (r.points.map (·.y))

section Extreme

variable {before : Float → Float → Prop} [DecidableRel before]

/-- A fold that goes over to every value in front of the one it holds ends there or further in front. -/
theorem foldl_before (trans : ∀ a b c, before a b → before b c → before a c) (first : Float)
    (rest : List Float) :
    let v := rest.foldl (fun a b => if before b a then b else a) first
    v = first ∨ before v first := by
  induction rest generalizing first with
  | nil => exact .inl rfl
  | cons b rest ih =>
    have hrest := ih (if before b first then b else first)
    dsimp only at hrest ⊢
    rw [List.foldl_cons]
    generalize rest.foldl _ _ = v at hrest ⊢
    by_cases hb : before b first
    · rw [if_pos hb] at hrest
      obtain rfl | hv := hrest
      · exact .inr hb
      · exact .inr (trans _ _ _ hv hb)
    · rw [if_neg hb] at hrest
      exact hrest

theorem extreme_foldl (irrefl : ∀ a, ¬ before a a)
    (trans : ∀ a b c, before a b → before b c → before a c) (first : Float) (rest : List Float) :
    Extreme before (rest.foldl (fun a b => if before b a then b else a) first) (first :: rest) := by
  induction rest generalizing first with
  | nil =>
    refine ⟨List.mem_cons_self, fun w hw => ?_⟩
    rw [List.mem_singleton.mp hw]
    exact irrefl first
  | cons b rest ih =>
    obtain ⟨hmem, hfront⟩ := ih (if before b first then b else first)
    have hlast := foldl_before trans (if before b first then b else first) rest
    dsimp only at hlast
    rw [List.foldl_cons]
    generalize rest.foldl _ _ = v at hmem hfront hlast ⊢
    by_cases hb : before b first
    · rw [if_pos hb] at hmem hfront
      refine ⟨List.mem_cons_of_mem _ hmem, fun w hw => ?_⟩
      obtain rfl | hw := List.mem_cons.mp hw
      · exact fun hv => hfront b List.mem_cons_self (trans _ _ _ hb hv)
      · exact hfront w hw
    · rw [if_neg hb] at hmem hfront hlast
      refine ⟨?_, fun w hw => ?_⟩
      · obtain rfl | hmem := List.mem_cons.mp hmem
        · exact List.mem_cons_self
        · exact List.mem_cons_of_mem _ (List.mem_cons_of_mem _ hmem)
      · obtain rfl | hw := List.mem_cons.mp hw
        · exact hfront w List.mem_cons_self
        · obtain rfl | hw := List.mem_cons.mp hw
          · -- A value that was passed over is not in front of anything that is further in front.
            intro hv
            obtain rfl | hlast := hlast
            · exact hb hv
            · exact hb (trans _ _ _ hv hlast)
          · exact hfront w (List.mem_cons_of_mem _ hw)

end Extreme

theorem isBoundedBy_boundingBox (d : Drawing) : d.result.IsBoundedBy d.boundingBox := by
  have hpoints : d.result.points = d.allPoints := rfl
  unfold Result.IsBoundedBy Drawing.boundingBox
  rw [hpoints]
  cases d.allPoints with
  | nil => rfl
  | cons p rest =>
    have hless := fun a b c => float_lt_trans (a := a) (b := b) (c := c)
    have hmore : ∀ a b c : Float, a > b → b > c → a > c := fun _ _ _ h k => float_lt_trans k h
    refine ⟨?_, ?_, ?_, ?_⟩
    · exact extreme_foldl float_lt_irrefl hless p.x _
    · exact extreme_foldl float_lt_irrefl hless p.y _
    · exact @extreme_foldl (· > ·) _ float_lt_irrefl hmore p.x _
    · exact @extreme_foldl (· > ·) _ float_lt_irrefl hmore p.y _

/-! ## Counting what is different -/

theorem mem_eraseRepsBy_loop {x first : Int} {xs found : List Int} :
    x ∈ List.eraseRepsBy.loop (· == ·) first xs found ↔ x = first ∨ x ∈ xs ∨ x ∈ found := by
  induction xs generalizing first found with
  | nil => simp [List.eraseRepsBy.loop, or_comm]
  | cons y ys ih =>
    unfold List.eraseRepsBy.loop
    cases hy : first == y with
    | true =>
      rw [beq_iff_eq] at hy
      subst hy
      simp only [ih, List.mem_cons]
      tauto
    | false =>
      simp only [ih, List.mem_cons]
      tauto

theorem mem_eraseReps {x : Int} {xs : List Int} : x ∈ xs.eraseReps ↔ x ∈ xs := by
  cases xs with
  | nil => exact Iff.rfl
  | cons y ys =>
    have hloop := @mem_eraseRepsBy_loop x y ys []
    simpa [List.eraseReps, List.eraseRepsBy] using hloop

theorem nodup_eraseDups (xs : List Int) : xs.eraseDups.Nodup := by
  match xs with
  | [] => exact List.nodup_nil
  | x :: rest =>
    have hshorter : (rest.filter fun y => !y == x).length < rest.length + 1 :=
      Nat.lt_succ_of_le (List.length_filter_le _ rest)
    rw [List.eraseDups_cons, List.nodup_cons]
    refine ⟨?_, nodup_eraseDups _⟩
    rw [List.mem_eraseDups]
    simp
termination_by xs.length

theorem length_eraseDups_eraseReps (xs : List Int) :
    xs.eraseReps.eraseDups.length = xs.toFinset.card := by
  rw [← List.toFinset_card_of_nodup (nodup_eraseDups _)]
  congr 1
  ext x
  rw [List.mem_toFinset, List.mem_toFinset, List.mem_eraseDups, mem_eraseReps]

theorem size_sub_countP {α : Type} (xs : Array α) (P : α → Bool) :
    xs.size - xs.toList.countP P = xs.toList.countP (!P ·) := by
  have hsplit := List.length_eq_countP_add_countP P (l := xs.toList)
  have hnot : (fun a => decide (¬ P a = true)) = fun a => !P a := by
    funext a
    cases P a <;> rfl
  rw [hnot, Array.length_toList] at hsplit
  omega

/-! ## Lengths and lines -/

theorem keys_addTo (line : Int) (id : Nat) (rows : List (Int × Array Nat)) :
    (LineIndex.addTo line id rows).map Prod.fst =
      if line ∈ rows.map Prod.fst then rows.map Prod.fst else rows.map Prod.fst ++ [line] := by
  induction rows with
  | nil => rfl
  | cons row rest ih =>
    obtain ⟨key, ids⟩ := row
    by_cases hk : key = line
    · simp [LineIndex.addTo, hk]
    · have hl : line ≠ key := fun he => hk he.symm
      simp only [LineIndex.addTo, if_neg hk, List.map_cons, ih, List.mem_cons, hl, false_or]
      split <;> rfl

namespace Drawing

/-- The lengths of a drawing are those of its segments, and its index has each of their lines once. -/
structure Tallied (d : Drawing) : Prop where
  total : d.totalLength = d.result.lengthOf fun _ => true
  penDown : d.penDownLength = d.result.lengthOf (·.penDown)
  penUp : d.penUpLength = d.result.lengthOf (!·.penDown)
  once : (d.lines.rows.map Prod.fst).Nodup
  lines : ∀ line, line ∈ d.lines.rows.map Prod.fst ↔ line ∈ d.segments.toList.map (·.line)

variable {d d' : Drawing}

theorem tallied_empty : Drawing.empty.Tallied :=
  ⟨rfl, rfl, rfl, List.nodup_nil, fun _ => Iff.rfl⟩

theorem lengthOf_push (r : Result) (s : Segment) (counts : Segment → Bool) :
    { r with segments := r.segments.push s }.lengthOf counts =
      if counts s then r.lengthOf counts + s.length else r.lengthOf counts := by
  unfold Result.lengthOf
  rw [Array.toList_push, List.filter_append, List.foldl_append]
  cases hs : counts s with
  | true => simp [hs]
  | false => simp [hs]

theorem Tallied.addSegment (h : d.Tallied) (p q : Point) (line : Int) (penDown : Bool)
    (group : Option Int) : (d.addSegment p q line penDown group).Tallied := by
  let s : Segment := ⟨d.counter, line, p, q, penDown, group⟩
  have hlength : ∀ counts, (d.addSegment p q line penDown group).result.lengthOf counts =
      if counts s then d.result.lengthOf counts + s.length else d.result.lengthOf counts :=
    lengthOf_push d.result s
  have hkeys : (d.addSegment p q line penDown group).lines.rows.map Prod.fst =
      if line ∈ d.lines.rows.map Prod.fst then d.lines.rows.map Prod.fst
      else d.lines.rows.map Prod.fst ++ [line] := keys_addTo _ _ _
  refine ⟨?_, ?_, ?_, ?_, ?_⟩
  · rw [hlength, ← h.total]
    rfl
  · rw [hlength, ← h.penDown]
    rfl
  · rw [hlength, ← h.penUp]
    cases penDown <;> rfl
  · rw [hkeys]
    split
    · exact h.once
    · rename_i hnew
      exact List.nodup_append.mpr ⟨h.once, List.nodup_singleton line, by
        intro a ha b hb he
        rw [List.mem_singleton.mp hb] at he
        exact hnew (he ▸ ha)⟩
  · intro other
    have hsegments : (d.addSegment p q line penDown group).segments.toList.map (·.line) =
        d.segments.toList.map (·.line) ++ [line] := by
      simp [Drawing.addSegment]
    rw [hkeys, hsegments, List.mem_append, List.mem_singleton]
    split
    · rename_i hold
      rw [h.lines] at hold
      rw [h.lines]
      exact ⟨.inl, fun hother => hother.elim id fun he => he ▸ hold⟩
    · rw [List.mem_append, List.mem_singleton, h.lines]

theorem Tallied.addArcSegments (h : d.Tallied) (line : Int) (penDown : Bool) (group : Int)
    (vertices : List Point) : (Machine.addArcSegments line penDown group vertices d).Tallied := by
  induction vertices generalizing d with
  | nil => exact h
  | cons p rest ih =>
    cases rest with
    | nil => exact h
    | cons q rest => exact ih (h.addSegment p q line penDown (some group))

/-- Lengths and index are part of the log. -/
theorem Tallied.of_log (h : d.Tallied) (hlog : d'.log = d.log) : d'.Tallied := by
  have hkept : d.log.Tallied := ⟨h.total, h.penDown, h.penUp, h.once, h.lines⟩
  rw [← hlog] at hkept
  exact ⟨hkept.total, hkept.penDown, hkept.penUp, hkept.once, hkept.lines⟩

/-- Statistics that were kept up to date are those of the result. -/
theorem Tallied.statistics_eq (h : d.Tallied) : d.statistics = d.result.statistics := by
  have hpenUp := size_sub_countP d.segments (·.penDown)
  have hpolygons := size_sub_countP d.polygons (·.commentOnly)
  have hlines : d.lines.size = (d.segments.toList.map (·.line)).toFinset.card := by
    have hset : (d.lines.rows.map Prod.fst).toFinset = (d.segments.toList.map (·.line)).toFinset := by
      ext line
      rw [List.mem_toFinset, List.mem_toFinset, h.lines]
    rw [← hset, List.toFinset_card_of_nodup h.once, List.length_map]
    rfl
  simp only [List.countP_eq_length_filter] at hpenUp hpolygons
  simp only [Drawing.statistics, Result.statistics, Drawing.result, hlines, hpenUp, hpolygons,
    length_eraseDups_eraseReps, h.total, h.penDown, h.penUp, Drawing.arcSegments,
    List.countP_eq_length_filter, Array.length_toList]

end Drawing

/-! ## Runs -/

namespace Machine

variable {m m' : Machine} {line : Int}

theorem Change.tallied {action : Action} (hc : m.Change line action m') (h : m.drawing.Tallied) :
    m'.drawing.Tallied := by
  cases hc with
  | skip | bind | steer | flatArc => exact h
  | move _ p => exact (h.addSegment ..).of_log (m.log_lineTo p line)
  | home => exact (h.addSegment ..).of_log (m.log_lineTo .origin line)
  | penUp => exact h.of_log (m.log_penUp line)
  | penDown => exact h.of_log (m.log_penDown line)
  | arc => exact (h.addArcSegments ..).of_log (log_traceArc ..)
  | note => exact h.of_log (log_placeNote ..)
  | @marker label _ p text =>
    have hmarked : (m.onCanvas (·.onDrawing (·.addMarker p label))).drawing.Tallied :=
      ⟨h.total, h.penDown, h.penUp, h.once, h.lines⟩
    exact hmarked.of_log (log_placeNote ..)

end Machine

variable {limits : Limits}

theorem Advance.tallied {v : Visit} {m : Machine} (ha : Advance limits v m)
    (h : v.before.drawing.Tallied) : m.drawing.Tallied := by
  have hready := h.of_log v.log_ready
  obtain hc | ⟨-, -, trace, rfl⟩ := ha.cases
  · exact hc.tallied hready
  · exact hready

theorem tallied_of_execute {resolution : Int} {commands : List Command} {comments : List Comment}
    {m : Machine} (h : execute limits resolution commands comments = .done m) :
    m.drawing.Tallied := by
  obtain ⟨n, hrun, rfl⟩ := execute_eq_done h
  have hstart : (Machine.start resolution comments).drawing.Tallied := Drawing.tallied_empty.of_log rfl
  have hend := (path_of_runCommands hrun).preserves (P := fun m => m.drawing.Tallied)
    (fun _ _ ha hv => ha.tallied hv) hstart
  exact hend.of_log (Canvas.log_finish _)

end TurtleTrace
