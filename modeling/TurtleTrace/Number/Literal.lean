import TurtleTrace.Text.Digit

/-!
# Unsigned number literals

A literal is a row of digits with an optional point and an optional exponent without a sign, in the
digits of any script. `Literal.read?` accepts exactly these texts and `Literal.value` is the float
nearest to the number written.
-/

namespace TurtleTrace

set_option autoImplicit false

/-- The float nearest to `mantissa · 10 ^ exponent`. Outside the range of floats the answer is known
from the number of digits alone, so no large power is ever formed. -/
def ofDecimal (mantissa : Nat) (exponent : Int) : Float :=
  if mantissa = 0 then 0
  else
    let order := exponent + (Text.ofNat mantissa).length
    if order > 310 then 1 / 0
    else if order < -330 then 0
    else Float.ofScientific mantissa (exponent < 0) exponent.natAbs

/-- The digits of a literal before the point, after it, and in the exponent. -/
structure Literal where
  whole : List Nat
  fraction : List Nat
  exponent : List Nat
  deriving DecidableEq, Repr

namespace Literal

/-- An exponent mark with at least one digit, or nothing. -/
def readExponent? : Text → Option (List Nat)
  | [] => some []
  | mark :: rest =>
    if mark = 'e' ∨ mark = 'E' then
      match readDigits rest with
      | ([], _) => none
      | (digits, []) => some digits
      | _ => none
    else none

/-- Reads a whole text as a literal. -/
def read? (t : Text) : Option Literal :=
  match readDigits t with
  | ([], '.' :: rest) =>
    match readDigits rest with
    | ([], _) => none
    | (fraction, rest) => (readExponent? rest).map (Literal.mk [] fraction)
  | ([], _) => none
  | (whole, '.' :: rest) =>
    (readExponent? (readDigits rest).2).map (Literal.mk whole (readDigits rest).1)
  | (whole, rest) => (readExponent? rest).map (Literal.mk whole [])

def value (l : Literal) : Float :=
  ofDecimal (digitsValue (l.whole ++ l.fraction)) (digitsValue l.exponent - l.fraction.length)

end Literal

/-- The value of a text that is a literal with a finite value. -/
def readNumber? (t : Text) : Option Float :=
  match Literal.read? t with
  | none => none
  | some l => if l.value.isFinite then some l.value else none

end TurtleTrace
