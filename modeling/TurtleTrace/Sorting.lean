/-!
# Stable insertion sort

`sortBy before` orders a list and keeps the given order among elements that are not apart. A list
that is nearly in order already is sorted in a single pass.
-/

namespace TurtleTrace

set_option autoImplicit false

variable {α : Type}

/-- Puts `x` in front of the first element that has to come after it or may. -/
def insertBy (upTo : α → α → Bool) (x : α) : List α → List α
  | [] => [x]
  | y :: ys => if upTo x y then x :: y :: ys else y :: insertBy upTo x ys

/-- The list in the order of `upTo`, which says whether its first argument may stand before its
second. -/
def sortBy (upTo : α → α → Bool) (xs : List α) : List α := xs.foldr (insertBy upTo) []

/-- The list by ascending key. -/
def sortOn (key : α → Int) (xs : List α) : List α := sortBy (fun x y => key x ≤ key y) xs

theorem insertBy_perm (upTo : α → α → Bool) (x : α) (xs : List α) :
    (insertBy upTo x xs).Perm (x :: xs) := by
  induction xs with
  | nil => exact .refl _
  | cons y ys ih =>
    by_cases h : upTo x y
    · simp [insertBy, h]
    · simp only [insertBy, h, Bool.false_eq_true, if_false]
      exact (ih.cons y).trans (.swap x y ys)

theorem sortBy_perm (upTo : α → α → Bool) (xs : List α) : (sortBy upTo xs).Perm xs := by
  induction xs with
  | nil => exact .refl _
  | cons x xs ih => exact (insertBy_perm upTo x _).trans (ih.cons x)

theorem sortOn_perm (key : α → Int) (xs : List α) : (sortOn key xs).Perm xs := sortBy_perm _ xs

end TurtleTrace
