import TurtleTrace.Turtle

/-!
# Arcs

An arc is a chain of equal steps around a centre; a full turn has as many steps as the resolution
says, and every arc has at least one. The first vertex lies on the heading, and a positive angle
sweeps clockwise.
-/

namespace TurtleTrace

set_option autoImplicit false

/-- How many steps an arc takes. -/
def arcSteps (angle : Float) (resolution : Int) : Except ArithmeticFault Nat := do
  let full ← ofInteger resolution
  let steps ← roundHalfUp (angle.abs / 360 * full)
  return max 1 steps.toNat

/-- The vertex of an arc after a number of steps. -/
def arcVertex (centre : Point) (start step radius : Float) (index : Nat) :
    Except ArithmeticFault Point := do
  let turned ← ofInteger index
  let (sine, cosine) ← direction (start + step * turned)
  return ⟨centre.x + radius * sine, centre.y + radius * cosine⟩

/-- The vertices `index, index + 1, …`, as many as `count`, behind those already found. -/
def verticesFrom (vertex : Nat → Except ArithmeticFault Point) :
    Nat → Nat → Array Point → Except ArithmeticFault (Array Point)
  | 0, _, found => .ok found
  | count + 1, index, found =>
    match vertex index with
    | .error fault => .error fault
    | .ok p => verticesFrom vertex count (index + 1) (found.push p)

/-- All vertices of an arc, one more than its steps. -/
def arcVertices (centre : Point) (heading angle radius : Float) (resolution : Int) :
    Except ArithmeticFault (Array Point) := do
  let steps ← arcSteps angle resolution
  let divisor ← ofInteger steps
  verticesFrom (arcVertex centre (radians heading) (radians angle / divisor) radius)
    (steps + 1) 0 #[]

theorem size_verticesFrom {vertex : Nat → Except ArithmeticFault Point} {count index : Nat}
    {found vertices : Array Point} (h : verticesFrom vertex count index found = .ok vertices) :
    vertices.size = found.size + count := by
  induction count generalizing index found with
  | zero => simp only [verticesFrom, Except.ok.injEq] at h; simp [h]
  | succ count ih =>
    unfold verticesFrom at h
    split at h
    · cases h
    · have := ih h
      simp only [Array.size_push] at this
      omega

end TurtleTrace
