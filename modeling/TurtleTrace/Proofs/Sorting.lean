import TurtleTrace.Sorting

/-!
# Laws of the stable sort

`sortOn key` orders a list by its keys and keeps the given order among elements of one key. These two
facts fix the result, and `IsStableSort` is the pair of them.

* `isStableSort_sortOn`: sorting gives a stable sort.
* `sortOn_of_pairwise`: a list in order stays as it is.
* `sortOn_eq_append`: elements with keys below a bound are sorted apart from the others.
* `span_of_ascending`: the front of a list in order, up to a bound, is what is below the bound.
-/

namespace TurtleTrace

set_option autoImplicit false

variable {α : Type} {key : α → Int}

/-- Ordered by key, and with the same elements in the same order under each key. -/
structure IsStableSort (key : α → Int) (xs sorted : List α) : Prop where
  ascending : sorted.Pairwise (fun x y => key x ≤ key y)
  stable : ∀ k : Int, sorted.filter (fun x => key x = k) = xs.filter (fun x => key x = k)

/-! ## Inserting by key -/

/-- Puts an element in front of the first one whose key is not smaller. -/
abbrev insertOn (key : α → Int) (x : α) (xs : List α) : List α :=
  insertBy (fun x y => key x ≤ key y) x xs

theorem sortOn_cons (x : α) (xs : List α) : sortOn key (x :: xs) = insertOn key x (sortOn key xs) :=
  rfl

theorem insertOn_cons_of_le {x y : α} (h : key x ≤ key y) (ys : List α) :
    insertOn key x (y :: ys) = x :: y :: ys := by
  simp [insertOn, insertBy, h]

theorem insertOn_cons_of_lt {x y : α} (h : key y < key x) (ys : List α) :
    insertOn key x (y :: ys) = y :: insertOn key x ys := by
  have hn : ¬ key x ≤ key y := by omega
  simp [insertOn, insertBy, hn]

/-- An element that may stand first is put first. -/
theorem insertOn_of_forall_le {x : α} {xs : List α} (h : ∀ y ∈ xs, key x ≤ key y) :
    insertOn key x xs = x :: xs := by
  cases xs with
  | nil => rfl
  | cons y ys => exact insertOn_cons_of_le (h y (List.mem_cons_self ..)) ys

theorem insertOn_append_of_forall_le {x : α} (xs : List α) {ys : List α}
    (h : ∀ y ∈ ys, key x ≤ key y) : insertOn key x (xs ++ ys) = insertOn key x xs ++ ys := by
  induction xs with
  | nil => exact insertOn_of_forall_le h
  | cons z zs ih =>
    by_cases hxz : key x ≤ key z
    · rw [List.cons_append, insertOn_cons_of_le hxz, insertOn_cons_of_le hxz, List.cons_append,
        List.cons_append]
    · have hzx : key z < key x := by omega
      rw [List.cons_append, insertOn_cons_of_lt hzx, insertOn_cons_of_lt hzx, ih, List.cons_append]

theorem insertOn_append_of_forall_lt {x : α} {xs : List α} (ys : List α)
    (h : ∀ y ∈ xs, key y < key x) : insertOn key x (xs ++ ys) = xs ++ insertOn key x ys := by
  induction xs with
  | nil => rfl
  | cons z zs ih =>
    have hzx : key z < key x := h z List.mem_cons_self
    have hzs : ∀ y ∈ zs, key y < key x := fun y hy => h y (List.mem_cons_of_mem z hy)
    rw [List.cons_append, insertOn_cons_of_lt hzx, ih hzs, List.cons_append]

theorem pairwise_insertOn (x : α) {xs : List α} (h : xs.Pairwise (fun x y => key x ≤ key y)) :
    (insertOn key x xs).Pairwise (fun x y => key x ≤ key y) := by
  induction xs with
  | nil => exact List.pairwise_singleton _ x
  | cons y ys ih =>
    obtain ⟨hy, hys⟩ := List.pairwise_cons.mp h
    by_cases hxy : key x ≤ key y
    · rw [insertOn_cons_of_le hxy]
      refine List.pairwise_cons.mpr ⟨?_, h⟩
      intro z hz
      obtain rfl | hz := List.mem_cons.mp hz
      · exact hxy
      · exact Int.le_trans hxy (hy z hz)
    · rw [insertOn_cons_of_lt (by omega)]
      refine List.pairwise_cons.mpr ⟨?_, ih hys⟩
      intro z hz
      obtain rfl | hz := List.mem_cons.mp ((insertBy_perm _ x ys).mem_iff.mp hz)
      · omega
      · exact hy z hz

theorem filter_insertOn (k : Int) (x : α) (xs : List α) :
    (insertOn key x xs).filter (fun x => key x = k) = (x :: xs).filter (fun x => key x = k) := by
  induction xs with
  | nil => rfl
  | cons y ys ih =>
    by_cases hxy : key x ≤ key y
    · rw [insertOn_cons_of_le hxy]
    · rw [insertOn_cons_of_lt (by omega), List.filter_cons, ih]
      -- The two keys differ, so at most one of the two elements is kept.
      by_cases hy : key y = k
      · have hx : ¬ key x = k := by omega
        simp [hx, hy]
      · by_cases hx : key x = k <;> simp [hx, hy]

theorem insertOn_map {β : Type} (f : β → α) (x : β) (ys : List β) :
    insertOn key (f x) (ys.map f) = (insertOn (fun y => key (f y)) x ys).map f := by
  induction ys with
  | nil => rfl
  | cons y ys ih =>
    by_cases hxy : key (f x) ≤ key (f y)
    · rw [List.map_cons, insertOn_cons_of_le hxy, @insertOn_cons_of_le β (fun y => key (f y)) x y hxy,
        List.map_cons, List.map_cons]
    · have hyx : key (f y) < key (f x) := by omega
      rw [List.map_cons, insertOn_cons_of_lt hyx, @insertOn_cons_of_lt β (fun y => key (f y)) x y hyx,
        List.map_cons, ih]

/-! ## Sorting by key -/

theorem isStableSort_sortOn (key : α → Int) (xs : List α) : IsStableSort key xs (sortOn key xs) := by
  induction xs with
  | nil => exact ⟨.nil, fun _ => rfl⟩
  | cons x xs ih =>
    refine ⟨pairwise_insertOn x ih.ascending, fun k => ?_⟩
    rw [sortOn_cons, filter_insertOn, List.filter_cons, List.filter_cons, ih.stable k]

theorem sortOn_of_pairwise {xs : List α} (h : xs.Pairwise (fun x y => key x ≤ key y)) :
    sortOn key xs = xs := by
  induction xs with
  | nil => rfl
  | cons x xs ih =>
    obtain ⟨hx, hxs⟩ := List.pairwise_cons.mp h
    rw [sortOn_cons, ih hxs, insertOn_of_forall_le hx]

theorem sortOn_map {β : Type} (f : β → α) (xs : List β) :
    sortOn key (xs.map f) = (sortOn (fun x => key (f x)) xs).map f := by
  induction xs with
  | nil => rfl
  | cons x xs ih => rw [List.map_cons, sortOn_cons, ih, insertOn_map, sortOn_cons]

theorem sortOn_eq_append (k : Int) (xs : List α) :
    sortOn key xs =
      sortOn key (xs.filter fun x => key x < k) ++ sortOn key (xs.filter fun x => k ≤ key x) := by
  induction xs with
  | nil => rfl
  | cons x xs ih =>
    rw [sortOn_cons, ih]
    by_cases hx : key x < k
    · have hhigh : ∀ y ∈ sortOn key (xs.filter fun x => k ≤ key x), key x ≤ key y := by
        intro y hy
        have hy := (List.mem_filter.mp ((sortOn_perm key _).mem_iff.mp hy)).2
        have hk : k ≤ key y := of_decide_eq_true hy
        omega
      rw [insertOn_append_of_forall_le _ hhigh, List.filter_cons_of_pos (by simpa using hx),
        List.filter_cons_of_neg (by simpa using hx), sortOn_cons]
    · have hlow : ∀ y ∈ sortOn key (xs.filter fun x => key x < k), key y < key x := by
        intro y hy
        have hy := (List.mem_filter.mp ((sortOn_perm key _).mem_iff.mp hy)).2
        have hk : key y < k := of_decide_eq_true hy
        omega
      rw [insertOn_append_of_forall_lt _ hlow, List.filter_cons_of_neg (by simpa using hx),
        List.filter_cons_of_pos (by simpa using hx), sortOn_cons]

/-- Two lists that a bound keeps apart are sorted one after the other, however they are mixed. -/
theorem sortOn_append_append {xs ys xs' ys' : List α} (k : Int)
    (hlow : ∀ x ∈ xs ++ xs', key x < k) (hhigh : ∀ y ∈ ys ++ ys', k ≤ key y) :
    sortOn key ((xs ++ ys) ++ (xs' ++ ys')) = sortOn key (xs ++ xs') ++ sortOn key (ys ++ ys') := by
  have below : ∀ {zs : List α}, (∀ z ∈ zs, key z < k) →
      zs.filter (fun x => key x < k) = zs ∧ zs.filter (fun x => k ≤ key x) = [] := by
    intro zs h
    constructor
    · exact List.filter_eq_self.mpr fun z hz => decide_eq_true (h z hz)
    · exact List.filter_eq_nil_iff.mpr fun z hz hk => Int.not_le.mpr (h z hz) (of_decide_eq_true hk)
  have above : ∀ {zs : List α}, (∀ z ∈ zs, k ≤ key z) →
      zs.filter (fun x => key x < k) = [] ∧ zs.filter (fun x => k ≤ key x) = zs := by
    intro zs h
    constructor
    · exact List.filter_eq_nil_iff.mpr fun z hz hk => Int.not_lt.mpr (h z hz) (of_decide_eq_true hk)
    · exact List.filter_eq_self.mpr fun z hz => decide_eq_true (h z hz)
  have hxs := below (fun x hx => hlow x (List.mem_append_left xs' hx))
  have hxs' := below (fun x hx => hlow x (List.mem_append_right xs hx))
  have hys := above (fun y hy => hhigh y (List.mem_append_left ys' hy))
  have hys' := above (fun y hy => hhigh y (List.mem_append_right ys hy))
  rw [sortOn_eq_append k]
  simp only [List.filter_append, hxs, hxs', hys, hys', List.append_nil, List.nil_append]

/-! ## Lists in order -/

/-- A scan of a list in order that stops at a bound has met all elements below it. -/
theorem span_of_ascending (key : α → Int) {xs : List α}
    (h : xs.Pairwise (fun x y => key x ≤ key y)) {k : Int} {p : α → Bool}
    (hp : ∀ x ∈ xs, p x = decide (key x < k)) :
    xs.takeWhile p = xs.filter (fun x => key x < k) ∧
      xs.dropWhile p = xs.filter (fun x => k ≤ key x) := by
  induction xs with
  | nil => exact ⟨rfl, rfl⟩
  | cons x xs ih =>
    obtain ⟨hx, hxs⟩ := List.pairwise_cons.mp h
    have hpx := hp x List.mem_cons_self
    by_cases hlow : key x < k
    · rw [decide_eq_true hlow] at hpx
      obtain ⟨htake, hdrop⟩ := ih hxs fun y hy => hp y (List.mem_cons_of_mem x hy)
      rw [List.takeWhile_cons_of_pos hpx, List.dropWhile_cons_of_pos hpx, htake, hdrop,
        List.filter_cons_of_pos (by simpa using hlow), List.filter_cons_of_neg (by simpa using hlow)]
      exact ⟨rfl, rfl⟩
    · rw [decide_eq_false hlow] at hpx
      -- All that follows is past the bound too.
      have hhigh : ∀ y ∈ x :: xs, k ≤ key y := by
        intro y hy
        obtain rfl | hy := List.mem_cons.mp hy
        · omega
        · have := hx y hy
          omega
      rw [List.takeWhile_cons_of_neg (by simp [hpx]), List.dropWhile_cons_of_neg (by simp [hpx])]
      refine ⟨(List.filter_eq_nil_iff.mpr fun y hy hk => ?_).symm,
        (List.filter_eq_self.mpr fun y hy => decide_eq_true (hhigh y hy)).symm⟩
      exact Int.not_lt.mpr (hhigh y hy) (of_decide_eq_true hk)

/-- A list in order is what is below a bound, followed by the rest. -/
theorem filter_append_of_ascending (key : α → Int) {xs : List α}
    (h : xs.Pairwise (fun x y => key x ≤ key y)) (k : Int) :
    xs.filter (fun x => key x < k) ++ xs.filter (fun x => k ≤ key x) = xs := by
  obtain ⟨htake, hdrop⟩ := span_of_ascending key (k := k) h fun _ _ => rfl
  rw [← htake, ← hdrop, List.takeWhile_append_dropWhile]

end TurtleTrace
