/-!
# Floats as exact binary fractions

A finite float is a sign, a natural mantissa and a power of two. `Dyadic.ofFloat?` decodes it from
its bits, `Dyadic.nearest` rounds a mantissa of any size back to a float, and `roundHalfEven` is the
one rounding of quotients that every numeral uses.
-/

namespace TurtleTrace

set_option autoImplicit false

/-- The value `mantissa · 2 ^ exponent`, negated if `negative`. -/
structure Dyadic where
  negative : Bool
  mantissa : Nat
  exponent : Int
  deriving DecidableEq, Repr

/-- The integer nearest to `num / den`; a tie goes to the even one. -/
def roundHalfEven (num den : Nat) : Nat :=
  let quotient := num / den
  let rest := num % den
  if 2 * rest < den then quotient
  else if den < 2 * rest then quotient + 1
  else quotient + quotient % 2

namespace Dyadic

/-- The exact value of a finite float; `none` for the infinities and NaN. -/
def ofFloat? (v : Float) : Option Dyadic :=
  let bits : Nat := v.toBits.toNat
  let fraction : Nat := bits % Nat.pow 2 52
  let power : Nat := bits / Nat.pow 2 52 % Nat.pow 2 11
  let negative := bits / Nat.pow 2 63 == 1
  if power = 2047 then none
  else if power = 0 then some ⟨negative, fraction, -1074⟩
  else some ⟨negative, fraction + Nat.pow 2 52, power - 1075⟩

/-- Numerator of the magnitude as a fraction in which the powers of two are cleared. -/
def numerator (d : Dyadic) : Nat := Nat.pow 2 d.exponent.toNat * d.mantissa

/-- Denominator of the magnitude, a power of two. -/
def denominator (d : Dyadic) : Nat := Nat.pow 2 (-d.exponent).toNat

theorem denominator_pos (d : Dyadic) : 0 < d.denominator := Nat.two_pow_pos _

/-- The greatest integer that is not above the value. -/
def floor (d : Dyadic) : Int :=
  let signed : Int := if d.negative then -d.numerator else d.numerator
  Int.fdiv signed d.denominator

def isInteger (d : Dyadic) : Bool := d.numerator % d.denominator == 0

def isOddInteger (d : Dyadic) : Bool := d.isInteger && d.numerator / d.denominator % 2 == 1

/-- How many binary digits a positive number has. -/
def bitLength (n : Nat) : Nat := if n = 0 then 0 else n.log2 + 1

/-- The bits of the float nearest to `mantissa · 2 ^ exponent` for a positive mantissa. The exponent
that is kept leaves 53 binary digits, or fewer below the normal floats; carrying over into the next
power and past the largest float comes out right by itself. -/
def nearestBits (mantissa : Nat) (exponent : Int) : Nat :=
  let least : Int := max (exponent + bitLength mantissa - 53) (-1074)
  let kept :=
    if exponent ≥ least then Nat.pow 2 (exponent - least).toNat * mantissa
    else roundHalfEven mantissa (Nat.pow 2 (least - exponent).toNat)
  min (Nat.pow 2 52 * (least + 1074).toNat + kept) 0x7FF0000000000000

/-- The float nearest to `mantissa · 2 ^ exponent`, ties to even, infinite past the largest. -/
def nearest (mantissa : Nat) (exponent : Int) : Float :=
  if mantissa = 0 then 0 else Float.ofBits (nearestBits mantissa exponent).toUInt64

end Dyadic

/-! ## Laws of the rounding -/

theorem roundHalfEven_mul {n den : Nat} (h : 0 < den) : roundHalfEven (n * den) den = n := by
  simp [roundHalfEven, Nat.mul_div_cancel n h, Nat.mul_mod_left, h]

end TurtleTrace
