import TurtleTrace.Text.Basic
import TurtleTrace.Number.Dyadic

/-!
# Between floats and integers

Rounding a float to an integer and an integer to a float, with the faults of arithmetic that have no
place in a script: an infinite angle, a number that is no integer, an integer past the largest float.
-/

namespace TurtleTrace

set_option autoImplicit false

/-- A fault of arithmetic itself. A script cannot handle it, and it ends the run at once. -/
inductive ArithmeticFault where
  | infiniteAngle
  | infiniteToInteger
  | notANumberToInteger
  | integerTooLarge
  deriving DecidableEq, Repr

def ArithmeticFault.message : ArithmeticFault → Text
  | infiniteAngle => "math domain error".toList
  | infiniteToInteger => "cannot convert float infinity to integer".toList
  | notANumberToInteger => "cannot convert float NaN to integer".toList
  | integerTooLarge => "int too large to convert to float".toList

/-- The greatest integer that is not above `v`. -/
def floorInt (v : Float) : Except ArithmeticFault Int :=
  match Dyadic.ofFloat? v with
  | some d => .ok d.floor
  | none => .error (if v.isNaN then .notANumberToInteger else .infiniteToInteger)

/-- The nearest integer, a half going up. -/
def roundHalfUp (v : Float) : Except ArithmeticFault Int := floorInt (v + 0.5)

/-- The float nearest to an integer. -/
def ofInteger (n : Int) : Except ArithmeticFault Float :=
  let size := Dyadic.nearest n.natAbs 0
  if size.isInf then .error .integerTooLarge
  else .ok (if n < 0 then -size else size)

theorem floorInt_eq_ok {v : Float} {d : Dyadic} (h : Dyadic.ofFloat? v = some d) :
    floorInt v = .ok d.floor := by
  simp [floorInt, h]

end TurtleTrace
