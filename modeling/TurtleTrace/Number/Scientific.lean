import TurtleTrace.Number.Fixed

/-!
# Numerals with a fixed number of significant digits

A positive value has a decimal order (the exponent of its first digit). `significant` rounds it to a
given number of digits, `scientific` writes these with an exponent, and `general` writes six digits,
positionally where the order allows it.
-/

namespace TurtleTrace

set_option autoImplicit false

namespace Dyadic

/-- The exponent of ten of the first significant digit of a positive magnitude. -/
def order (d : Dyadic) : Int :=
  let whole := d.numerator / d.denominator
  if whole ≠ 0 then (Text.ofNat whole).length - 1
  else (Text.ofNat (Nat.pow 10 400 * d.numerator / d.denominator)).length - 401

/-- The magnitude times `10 ^ shift`, rounded to the nearest integer, ties to even. -/
def shifted (shift : Int) (d : Dyadic) : Nat :=
  roundHalfEven (Nat.pow 10 shift.toNat * d.numerator) (Nat.pow 10 (-shift).toNat * d.denominator)

/-- The magnitude rounded to `digits` significant digits: the digits as one number, and the order. -/
def significant (digits : Nat) (d : Dyadic) : Nat × Int :=
  if d.mantissa = 0 then (0, 0)
  else
    let order := d.order
    let units := d.shifted (digits - 1 - order)
    if units = Nat.pow 10 digits then (Nat.pow 10 (digits - 1), order + 1) else (units, order)

end Dyadic

/-- An exponent with its sign and at least two digits. -/
def exponentText (order : Int) : Text :=
  (if order < 0 then '-' else '+') :: Text.padded 2 order.natAbs

/-- The numeral of `v` with `digits` significant digits (at least two) and an exponent. -/
def scientific (digits : Nat) (v : Float) : Text :=
  match Dyadic.ofFloat? v with
  | none => notFiniteText v
  | some d =>
    let (units, order) := d.significant digits
    let shown := Text.padded digits units
    (if d.negative then ['-'] else []) ++ shown.take 1 ++ '.' :: shown.drop 1 ++
      'e' :: exponentText order

/-- A row of digits with a point after the first `whole` of them, without zeros behind the point. -/
def pointed (whole : Nat) (digits : Text) : Text :=
  let fraction := stripRight '0' (digits.drop whole)
  digits.take whole ++ if fraction.isEmpty then [] else '.' :: fraction

/-- How many significant digits the messages show. -/
def generalDigits : Nat := 6

/-- The numeral of the messages: six significant digits without zeros at the end; an exponent is
written below a ten-thousandth and from a million on. -/
def general (v : Float) : Text :=
  match Dyadic.ofFloat? v with
  | none => notFiniteText v
  | some d =>
    let (units, order) := d.significant generalDigits
    let digits := Text.padded generalDigits units
    (if d.negative then ['-'] else []) ++
      if order < -4 ∨ order ≥ generalDigits then
        pointed 1 digits ++ 'e' :: exponentText order
      else if order < 0 then
        pointed 1 (List.replicate (-order).toNat '0' ++ digits)
      else pointed (order.toNat + 1) digits

end TurtleTrace
