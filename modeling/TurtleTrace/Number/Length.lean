import TurtleTrace.Number.Dyadic

/-!
# Length of a vector

`vectorLength x y` is the root of `x² + y²` in floats. The coordinates are scaled by a power of two, so
that no square is too large or too small. The squares are added up with what every rounding loses kept
apart, and the root is corrected by what its own square misses. Nearly always that gives the nearest
float; a root that lies halfway between two may come out as either.
-/

namespace TurtleTrace

set_option autoImplicit false

/-- A float as the sum of two that have half of its digits each. -/
def halves (x : Float) : Float × Float :=
  let wide := x * 134217729
  let high := wide - (wide - x)
  (high, x - high)

/-- Adds `x` to a sum that is not smaller, and what the rounding loses to the losses. -/
def addKept (sum lost x : Float) : Float × Float := (sum + x, lost + ((sum - (sum + x)) + x))

/-- A sum that starts at one, and what its roundings have lost, by the size of what was added. -/
structure SquareSum where
  sum : Float := 1
  large : Float := 0
  middle : Float := 0
  small : Float := 0

namespace SquareSum

/-- Adds a square. Its smallest part goes to the losses at once. -/
def addSquare (s : SquareSum) (x : Float) : SquareSum :=
  let (high, low) := halves x
  let (sum, large) := addKept s.sum s.large (high * high)
  let (sum, middle) := addKept sum s.middle (2 * high * low)
  { sum, large, middle, small := s.small + low * low }

/-- Takes a square away, with all that its parts lose. -/
def subSquare (s : SquareSum) (x : Float) : SquareSum :=
  let (high, low) := halves x
  let (sum, large) := addKept s.sum s.large (-high * high)
  let (sum, middle) := addKept sum s.middle (-2 * high * low)
  let (sum, small) := addKept sum s.small (-low * low)
  { sum, large, middle, small }

/-- The sum without the one it started from. -/
def total (s : SquareSum) : Float := s.sum - 1 + (s.large + s.middle + s.small)

end SquareSum

/-- The length of a vector whose coordinates times `scale` are at most one. -/
def scaledLength (scale x y : Float) : Float :=
  let squares := (SquareSum.addSquare {} (x * scale)).addSquare (y * scale)
  let root := squares.total.sqrt
  (root + (squares.subSquare root).total / (2 * root)) / scale

/-- The length of a vector that no power of two scales to one. -/
def tinyLength (longest x y : Float) : Float :=
  let p := x / longest
  let q := y / longest
  let (sum, lost) := addKept 1 0 (p * p)
  let (sum, lost) := addKept sum lost (q * q)
  longest * (sum - 1 + lost).sqrt

/-- The length of the vector `(x, y)`; an infinite coordinate outweighs one that is not a number. -/
def vectorLength (x y : Float) : Float :=
  match Dyadic.ofFloat? x, Dyadic.ofFloat? y with
  | some a, some b =>
    let (longest, d) := if x.abs < y.abs then (y.abs, b) else (x.abs, a)
    let order := d.exponent + Dyadic.bitLength d.mantissa
    if d.mantissa = 0 then 0
    else if order ≥ -1023 then scaledLength (Dyadic.nearest 1 (-order)) x.abs y.abs
    else tinyLength longest x.abs y.abs
  | _, _ => if x.isInf || y.isInf then 1 / 0 else 0 / 0

end TurtleTrace
