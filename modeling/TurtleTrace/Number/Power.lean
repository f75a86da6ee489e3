import TurtleTrace.Number.Dyadic

/-!
# Powers of floats

`power base exponent` settles the cases with an infinite or missing number, a zero base and a
negative base before it raises a positive base. It fails where the result is no real number, where
zero is raised to a negative power, and where a finite power is too large.
-/

namespace TurtleTrace

set_option autoImplicit false

inductive PowerFault where
  | zeroToNegative
  | notReal
  | tooLarge
  deriving DecidableEq, Repr

/-- Whether a float is an integer; an infinite one counts as such. -/
def isWhole (v : Float) : Bool :=
  match Dyadic.ofFloat? v with
  | none => v.isInf
  | some d => d.isInteger

def isOdd (v : Float) : Bool :=
  match Dyadic.ofFloat? v with
  | none => false
  | some d => d.isOddInteger

/-- A positive finite base to a finite power. -/
def positivePower (base exponent : Float) : Except PowerFault Float :=
  if base == 1 then .ok 1
  else
    let result := base.pow exponent
    if result.isInf then .error .tooLarge else .ok result

/-- A base to an infinite power: the size of the base alone decides. -/
def infinitePower (base exponent : Float) : Float :=
  let size := base.abs
  if size == 1 then 1
  else if (exponent > 0) == (size > 1) then exponent.abs
  else 0

/-- An infinite base to a finite power other than zero. -/
def powerOfInfinity (base exponent : Float) : Float :=
  if exponent > 0 then (if isOdd exponent then base else base.abs)
  else if isOdd exponent && base < 0 then -0.0
  else 0

def power (base exponent : Float) : Except PowerFault Float :=
  if exponent == 0 then .ok 1
  else if base.isNaN then .ok base
  else if exponent.isNaN then .ok (if base == 1 then 1 else exponent)
  else if exponent.isInf then .ok (infinitePower base exponent)
  else if base.isInf then .ok (powerOfInfinity base exponent)
  else if base == 0 then
    if exponent < 0 then .error .zeroToNegative
    else .ok (if isOdd exponent then base else 0)
  else if base < 0 then
    match positivePower (-base) exponent with
    | .error fault => .error fault
    | .ok size =>
      if !isWhole exponent then .error .notReal
      else .ok (if isOdd exponent then -size else size)
  else positivePower base exponent

end TurtleTrace
