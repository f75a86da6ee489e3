import TurtleTrace.CommentQueue
import TurtleTrace.Proofs.Sorting

/-!
# Reading the comments of a drawing

The reading of a polygon is its free comments and then its pinned ones by slot; the reading of a
drawing is that of its finished polygons and of the open one, in order. Comments are only ever put
behind all those that are there already: `Drawing.Appends d texts d'` says that the reading of `d'` is
that of `d` with `texts` behind it. The open polygon carries the invariant for this, `Polygon.Ordered`:
its slots ascend in the order of placement, and none is past the slot that comes next.
-/

namespace TurtleTrace

set_option autoImplicit false

/-! ## Polygons -/

namespace Polygon

/-- The comments of a polygon as they are written: the free ones, then the pinned ones by slot. -/
def reading (p : Polygon) : List Text := p.free.toList ++ p.slots.flatMap Prod.snd

structure Ordered (p : Polygon) : Prop where
  ascending : p.pinned.toList.Pairwise (fun x y => x.1 ≤ y.1)
  upToNext : ∀ x ∈ p.pinned.toList, x.1 ≤ p.nextSlot

theorem flatMap_groupSlots (xs : List (Int × Text)) :
    (groupSlots xs).flatMap Prod.snd = xs.map Prod.snd := by
  induction xs with
  | nil => rfl
  | cons x xs ih =>
    obtain ⟨slot, text⟩ := x
    unfold groupSlots
    split
    · rename_i next texts groups hg
      rw [hg, List.flatMap_cons] at ih
      split
      · simp only [List.flatMap_cons, List.map_cons, List.cons_append, ih]
      · simp only [List.flatMap_cons, List.map_cons, List.cons_append, List.nil_append, ih]
    · rename_i hg
      rw [hg] at ih
      simp only [List.flatMap_cons, List.flatMap_nil, List.map_cons, List.append_nil, ← ih]

/-- The comments of an ordered polygon are read in the order in which they were placed. -/
theorem Ordered.reading_eq {p : Polygon} (h : p.Ordered) :
    p.reading = p.free.toList ++ p.pinned.toList.map Prod.snd := by
  rw [reading, slots, flatMap_groupSlots, pinnedInOrder, sortOn_of_pairwise h.ascending]

theorem ordered_of_pinned_eq_empty {p : Polygon} (h : p.pinned = #[]) : p.Ordered := by
  refine ⟨?_, ?_⟩
  · rw [h]
    exact .nil
  · rw [h]
    simp

theorem nextSlot_nonneg (p : Polygon) : 0 ≤ p.nextSlot := by
  unfold nextSlot
  split <;> omega

/-- Pinned comments stay in order when the points change and the next slot does not fall back. -/
theorem Ordered.of_le {p q : Polygon} (h : p.Ordered) (hpinned : q.pinned = p.pinned)
    (hslot : p.nextSlot ≤ q.nextSlot) : q.Ordered := by
  refine ⟨by rw [hpinned]; exact h.ascending, ?_⟩
  intro x hx
  rw [hpinned] at hx
  exact Int.le_trans (h.upToNext x hx) hslot

theorem nextSlot_le_addPoint (p : Polygon) (point : Point) :
    p.nextSlot ≤ (p.addPoint point).nextSlot := by
  by_cases hs : p.points.size ≤ 1
  · have h0 : p.nextSlot = 0 := by simp [nextSlot, isSeed, hs]
    rw [h0]
    exact nextSlot_nonneg _
  · have hn : ¬ p.points.size + 1 ≤ 1 := by omega
    simp only [nextSlot, isSeed, addPoint, Array.size_push, hs, hn, decide_false,
      Bool.false_eq_true, if_false]
    omega

theorem Ordered.addPoint {p : Polygon} (h : p.Ordered) (point : Point) :
    (p.addPoint point).Ordered :=
  h.of_le rfl (nextSlot_le_addPoint p point)

/-- A polygon that was only seeded may be given other points. -/
theorem Ordered.setPoints {p : Polygon} (h : p.Ordered) (hseed : p.isSeed = true)
    (points : Array Point) : { p with points := points }.Ordered := by
  refine h.of_le rfl ?_
  have h0 : p.nextSlot = 0 := by simp [nextSlot, hseed]
  rw [h0]
  exact nextSlot_nonneg _

theorem Ordered.pinHere {p : Polygon} (h : p.Ordered) (texts : List Text) :
    (p.pinHere texts).Ordered ∧ (p.pinHere texts).reading = p.reading ++ texts := by
  have hp : (p.pinHere texts).pinned.toList =
      p.pinned.toList ++ texts.map fun text => (p.nextSlot, text) := by
    simp [Polygon.pinHere, pin]
  have ho : (p.pinHere texts).Ordered := by
    refine ⟨?_, ?_⟩
    · rw [hp, List.pairwise_append]
      refine ⟨h.ascending, ?_, ?_⟩
      · exact List.pairwise_map.mpr (List.pairwise_of_forall fun _ _ => Int.le_refl _)
      · intro x hx y hy
        obtain ⟨text, -, rfl⟩ := List.mem_map.mp hy
        exact h.upToNext x hx
    · intro x hx
      rw [hp, List.mem_append] at hx
      obtain hx | hx := hx
      · exact h.upToNext x hx
      · obtain ⟨text, -, rfl⟩ := List.mem_map.mp hx
        exact Int.le_refl _
  refine ⟨ho, ?_⟩
  rw [ho.reading_eq, h.reading_eq, hp, List.map_append, List.map_map, ← List.append_assoc]
  have hm : texts.map (Prod.snd ∘ fun text => (p.nextSlot, text)) = texts := List.map_id _
  rw [hm]
  rfl

theorem Ordered.addComments {p : Polygon} (h : p.Ordered) (texts : List Text) :
    (p.addComments texts).Ordered ∧ (p.addComments texts).reading = p.reading ++ texts := by
  unfold Polygon.addComments
  split
  · rename_i hs
    have hp : p.pinned = #[] := by simpa using (Bool.and_eq_true_iff.mp hs).2
    have ho : { p with free := p.free ++ texts }.Ordered := ordered_of_pinned_eq_empty hp
    refine ⟨ho, ?_⟩
    rw [ho.reading_eq, h.reading_eq]
    simp [hp]
  · exact h.pinHere texts

end Polygon

/-! ## Drawings -/

namespace Drawing

/-- The comments of a drawing: those of the finished polygons in order, then those of the open one. -/
def reading (d : Drawing) : List Text :=
  (d.polygons.toList ++ d.current.toList).flatMap Polygon.reading

/-- The open polygon, if there is one, is ordered. -/
def Ordered (d : Drawing) : Prop := ∀ p, d.current = some p → p.Ordered

/-- A change that puts `texts` behind all the comments that are there already. -/
def Appends (d : Drawing) (texts : List Text) (d' : Drawing) : Prop :=
  d.Ordered → d'.Ordered ∧ d'.reading = d.reading ++ texts

variable {d d' d'' : Drawing} {s t : List Text}

theorem Appends.trans (h : d.Appends s d') (k : d'.Appends t d'') : d.Appends (s ++ t) d'' := by
  intro ho
  obtain ⟨ho', hr'⟩ := h ho
  obtain ⟨ho'', hr''⟩ := k ho'
  exact ⟨ho'', by rw [hr'', hr', List.append_assoc]⟩

/-- A change without comments in front of one that places some. -/
theorem Appends.after (h : d.Appends [] d') (k : d'.Appends t d'') : d.Appends t d'' := h.trans k

/-- A change without comments behind one that places some. -/
theorem Appends.thenNone (h : d.Appends s d') (k : d'.Appends [] d'') : d.Appends s d'' := by
  have hk := h.trans k
  rwa [List.append_nil] at hk

/-- What leaves the polygons and the open polygon alone places nothing. -/
theorem appends_of_eq (hp : d'.polygons = d.polygons) (hc : d'.current = d.current) :
    d.Appends [] d' := by
  intro ho
  refine ⟨fun p h => ho p (hc ▸ h), ?_⟩
  rw [reading, reading, hp, hc, List.append_nil]

/-- Opening a polygon without comments places nothing. -/
theorem appends_open {p : Polygon} (hc : d.current = none) (hf : p.free = #[])
    (hp : p.pinned = #[]) : d.Appends [] { d with current := some p } := by
  intro _
  have ho := Polygon.ordered_of_pinned_eq_empty hp
  refine ⟨?_, ?_⟩
  · intro q hq
    cases hq
    exact ho
  · have hr : p.reading = [] := by rw [ho.reading_eq, hf, hp]; rfl
    simp [reading, hc, hr]

/-- A change of the open polygon alone places what it adds to the reading of that polygon. -/
theorem appends_onCurrent {f : Polygon → Polygon}
    (h : ∀ p, d.current = some p → p.Ordered → (f p).Ordered ∧ (f p).reading = p.reading ++ t)
    (hc : d.current ≠ none) : d.Appends t (d.onCurrent f) := by
  intro ho
  obtain ⟨p, hp⟩ := Option.ne_none_iff_exists'.mp hc
  obtain ⟨hfo, hfr⟩ := h p hp (ho p hp)
  refine ⟨?_, ?_⟩
  · intro q hq
    simp only [onCurrent, hp, Option.map_some, Option.some.injEq] at hq
    exact hq ▸ hfo
  · simp [reading, onCurrent, hp, hfr]

theorem appends_ensureTarget (d : Drawing) : d.Appends [] d.ensureTarget := by
  unfold ensureTarget
  split
  · rename_i hc
    exact appends_open hc rfl rfl
  · exact appends_of_eq rfl rfl

theorem current_ensureTarget (d : Drawing) : d.ensureTarget.current ≠ none := by
  unfold ensureTarget
  split
  · simp
  · rename_i hc
    simp [hc]

theorem appends_ensurePolygon (d : Drawing) (position : Point) :
    d.Appends [] (d.ensurePolygon position) := by
  unfold ensurePolygon
  split
  · rename_i hc
    exact appends_open hc rfl rfl
  · rename_i p hc
    split
    · have h := appends_onCurrent (d := d) (f := (·.addPoint position)) (t := [])
        (fun p _ ho => ⟨ho.addPoint position, (List.append_nil _).symm⟩) (by simp [hc])
      simpa [onCurrent, hc] using h
    · exact appends_of_eq rfl rfl

theorem current_ensurePolygon (d : Drawing) (position : Point) :
    (d.ensurePolygon position).current ≠ none := by
  unfold ensurePolygon
  split
  · simp
  · rename_i hc
    split <;> simp [hc]

/-! ## The operations of a run -/

theorem appends_addPoint (d : Drawing) (point position : Point) :
    d.Appends [] (d.addPoint point position) :=
  (appends_ensurePolygon d position).after <| appends_onCurrent
    (fun _ _ ho => ⟨ho.addPoint point, (List.append_nil _).symm⟩)
    (current_ensurePolygon d position)

theorem appends_addComments (d : Drawing) (texts : List Text) :
    d.Appends texts (d.addComments texts) :=
  (appends_ensureTarget d).after <| appends_onCurrent (fun _ _ ho => ho.addComments texts)
    (current_ensureTarget d)

theorem appends_pinComments (d : Drawing) (texts : List Text) (position : Point) :
    d.Appends texts (d.pinComments texts position) :=
  (appends_ensurePolygon d position).after <| appends_onCurrent (fun _ _ ho => ho.pinHere texts)
    (current_ensurePolygon d position)

theorem appends_finishPolygon (d : Drawing) (commentOnly : Bool) (circle : Option Circle) :
    d.Appends [] (d.finishPolygon commentOnly circle) := by
  unfold finishPolygon
  split
  · exact appends_of_eq rfl rfl
  · rename_i p hc
    intro _
    refine ⟨fun _ h => (by cases h), ?_⟩
    have hr : { p with
        commentOnly := commentOnly || p.points.isEmpty, circle := circle }.reading = p.reading := rfl
    simp [reading, hc, hr]

theorem appends_place (d : Drawing) (texts : List Text) : d.Appends texts (d.place texts) := by
  unfold place
  split
  · rename_i hn
    rw [List.isEmpty_iff.mp hn]
    exact appends_of_eq rfl rfl
  · exact appends_addComments d texts

theorem appends_placeBefore (d : Drawing) (texts : List Text) (kind : Kind) (position : Point) :
    d.Appends texts (d.placeBefore texts kind position) := by
  unfold placeBefore
  split
  · rename_i hn
    rw [List.isEmpty_iff.mp hn]
    exact appends_of_eq rfl rfl
  · split
    · exact appends_pinComments d texts position
    · exact appends_addComments d texts

end Drawing

end TurtleTrace
