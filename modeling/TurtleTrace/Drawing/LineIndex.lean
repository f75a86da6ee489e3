/-!
# Index of segments by line

For every line of the script that has traced something, the numbers of its segments in the order of
tracing.
-/

namespace TurtleTrace

set_option autoImplicit false

structure LineIndex where
  rows : List (Int × Array Nat) := []
  deriving DecidableEq, Repr

namespace LineIndex

def empty : LineIndex := {}

def addTo (line : Int) (id : Nat) : List (Int × Array Nat) → List (Int × Array Nat)
  | [] => [(line, #[id])]
  | (key, ids) :: rest =>
    if key = line then (key, ids.push id) :: rest else (key, ids) :: addTo line id rest

def add (index : LineIndex) (line : Int) (id : Nat) : LineIndex := ⟨addTo line id index.rows⟩

/-- The numbers of the segments that a line has traced. -/
def ids (index : LineIndex) (line : Int) : Array Nat := (index.rows.lookup line).getD #[]

/-- How many lines have traced something. -/
def size (index : LineIndex) : Nat := index.rows.length

theorem lookup_addTo (line other : Int) (id : Nat) (rows : List (Int × Array Nat)) :
    (addTo line id rows).lookup other =
      if other = line then some (((rows.lookup line).getD #[]).push id)
      else rows.lookup other := by
  induction rows with
  | nil =>
    by_cases h : other = line
    · simp [addTo, h]
    · simp [addTo, List.lookup_cons, h, beq_eq_false_iff_ne.mpr h]
  | cons row rest ih =>
    obtain ⟨key, ids⟩ := row
    by_cases hk : key = line
    · subst hk
      by_cases h : other = key
      · simp [addTo, h]
      · simp [addTo, List.lookup_cons, h, beq_eq_false_iff_ne.mpr h]
    · by_cases h : other = key
      · simp [addTo, hk, h]
      · have hl : line ≠ key := fun he => hk he.symm
        simp [addTo, hk, List.lookup_cons, beq_eq_false_iff_ne.mpr h, beq_eq_false_iff_ne.mpr hl, ih]

theorem ids_add (index : LineIndex) (line other : Int) (id : Nat) :
    (index.add line id).ids other =
      if other = line then (index.ids line).push id else index.ids other := by
  simp only [ids, add, lookup_addTo]
  split <;> simp

end LineIndex

end TurtleTrace
