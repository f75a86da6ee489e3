import TurtleTrace.Number.Literal
import TurtleTrace.Number.Scientific

/-!
# Shortest numerals

The fewest significant digits that read back as the same float, and of several such rows the one
nearest to the value. `shortest` writes them positionally from a ten-thousandth up to, but not
including, ten to the sixteenth, and with an exponent elsewhere.
-/

namespace TurtleTrace

set_option autoImplicit false

namespace Dyadic

/-- Whether `units · 10 ^ (-shift)` is read as the float `v`. -/
def readsBack (v : Float) (shift : Int) (units : Nat) : Bool :=
  (ofDecimal units (-shift)).toBits == v.toBits

/-- Of the two neighbours of the magnitude among the multiples of `10 ^ (-shift)`, the one that
reads back as `v`; the nearer one if both do. -/
def neighbour? (v : Float) (d : Dyadic) (shift : Int) : Option Nat :=
  let below := Nat.pow 10 shift.toNat * d.numerator / (Nat.pow 10 (-shift).toNat * d.denominator)
  let nearer := d.shifted shift
  let farther := if nearer = below then below + 1 else below
  if readsBack v shift nearer then some nearer
  else if readsBack v shift farther then some farther
  else none

/-- The digits of the first of the lengths `digits, digits + 1, …` that reads back. -/
def shortestFrom (v : Float) (d : Dyadic) : Nat → Nat → Nat × Int
  | 0, digits => d.significant digits
  | more + 1, digits =>
    let order := d.order
    match d.neighbour? v (digits - 1 - order) with
    | some units =>
      if units = Nat.pow 10 digits then (Nat.pow 10 (digits - 1), order + 1) else (units, order)
    | none => shortestFrom v d more (digits + 1)

end Dyadic

/-- The shortest numeral of a float: a point or an exponent shows that it is one. -/
def shortest (v : Float) : Text :=
  match Dyadic.ofFloat? v with
  | none => notFiniteText v
  | some d =>
    let sign := if d.negative then ['-'] else []
    if d.mantissa = 0 then sign ++ ['0', '.', '0']
    else
      let size : Float := if d.negative then -v else v
      let (units, order) := d.shortestFrom size 16 1
      let digits := stripRight '0' (Text.ofNat units)
      if order < -4 ∨ order ≥ 16 then
        sign ++ pointed 1 digits ++ 'e' :: exponentText order
      else if order < 0 then
        sign ++ pointed 1 (List.replicate (-order).toNat '0' ++ digits)
      else if digits.length ≤ order.toNat + 1 then
        sign ++ digits ++ List.replicate (order.toNat + 1 - digits.length) '0' ++ ['.', '0']
      else sign ++ pointed (order.toNat + 1) digits

end TurtleTrace
