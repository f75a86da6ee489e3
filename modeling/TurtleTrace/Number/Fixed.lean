import TurtleTrace.Text.Basic
import TurtleTrace.Number.Dyadic

/-!
# Numerals with a fixed number of decimal places

`scaled places d` is the magnitude of `d` in units of the last place, correctly rounded. `fixed`
writes every place; `decimal` is the numeral of the generated text: six places at most, no zeros at
the end, and no sign on a zero.
-/

namespace TurtleTrace

set_option autoImplicit false

/-- The magnitude times `10 ^ places`, rounded to the nearest integer, ties to even. -/
def Dyadic.scaled (places : Nat) (d : Dyadic) : Nat :=
  roundHalfEven (Nat.pow 10 places * d.numerator) d.denominator

/-- The text of a value that is not finite. -/
def notFiniteText (v : Float) : Text :=
  if v.isNaN then ['n', 'a', 'n']
  else if v < 0 then ['-', 'i', 'n', 'f']
  else ['i', 'n', 'f']

/-- The numeral of `v` with exactly `places` decimal places (at least one). -/
def fixed (places : Nat) (v : Float) : Text :=
  match Dyadic.ofFloat? v with
  | none => notFiniteText v
  | some d =>
    let units := d.scaled places
    (if d.negative then ['-'] else []) ++ Text.ofNat (units / Nat.pow 10 places) ++
      '.' :: Text.padded places (units % Nat.pow 10 places)

/-- A text without the given character at its end. -/
def stripRight (c : Char) (t : Text) : Text := (t.reverse.dropWhile (· == c)).reverse

/-- How many decimal places the generated text keeps. -/
def decimalPlaces : Nat := 6

/-- The numeral of a number of millionths. -/
def millionths (negative : Bool) (units : Nat) : Text :=
  let fraction := stripRight '0' (Text.padded decimalPlaces (units % Nat.pow 10 decimalPlaces))
  (if negative && units != 0 then ['-'] else []) ++ Text.ofNat (units / Nat.pow 10 decimalPlaces) ++
    if fraction.isEmpty then [] else '.' :: fraction

/-- The numeral of the generated text: the nearest multiple of a millionth, written without
superfluous zeros. -/
def decimal (v : Float) : Text :=
  match Dyadic.ofFloat? v with
  | none => notFiniteText v
  | some d => millionths d.negative (d.scaled decimalPlaces)

end TurtleTrace
