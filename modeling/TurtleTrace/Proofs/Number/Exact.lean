import Mathlib.Algebra.Order.Field.Rat
import Mathlib.Algebra.Ring.Parity
import Mathlib.Data.Rat.Cast.Order
import Mathlib.Tactic.FieldSimp
import Mathlib.Tactic.Linarith
import Mathlib.Tactic.Ring
import TurtleTrace.Number.Fixed
import TurtleTrace.Proofs.Number.Whole

/-!
# Floats as rational numbers

A finite float stands for a rational number, which is the number that its bits are decoded to. Rounding
a fraction gives the nearest integer, and of two that are equally near the even one.

* `exactValue`: the number that a float stands for.
* `IsNearest`: integers next to a number, the even one at ties.
-/

namespace TurtleTrace

set_option autoImplicit false

open Float.Model (UnpackedFloat totalExponent)
open Float.Model.UnpackedFloat (Sign unpackExponent unpackMantissa unpackSign)

/-! ## The number of a float -/

/-- The sign of a number as a factor. -/
def signFactor (negative : Bool) : ℚ := if negative then -1 else 1

/-- The number that a finite float stands for, and zero for the others. -/
def exactValue (v : Float) : ℚ :=
  match v.toModel.unpack with
  | .finite s m e _ => signFactor (s == .negative) * (m * 2 ^ e)
  | _ => 0

/-- The number that a binary fraction stands for. -/
def Dyadic.value (d : Dyadic) : ℚ := signFactor d.negative * (d.mantissa * 2 ^ d.exponent)

theorem toNat_unpackMantissa (b : BitVec 64) :
    (@unpackMantissa .binary64 b).toNat = b.toNat % 2 ^ 52 := by
  unfold unpackMantissa
  rw [BitVec.toNat_cast, BitVec.extractLsb_toNat, Nat.shiftRight_zero]
  rfl

theorem negative_unpackSign (b : BitVec 64) :
    (Sign.ofBitVec (@unpackSign .binary64 b) == .negative) = (b.toNat / 2 ^ 63 == 1) := by
  have hsign : (@unpackSign .binary64 b).toNat = b.toNat / 2 ^ 63 := by
    unfold unpackSign
    rw [BitVec.toNat_cast, BitVec.extractLsb_toNat, Nat.shiftRight_eq_div_pow]
    exact Nat.mod_eq_of_lt (Nat.div_lt_of_lt_mul b.isLt)
  have hbit : b.toNat / 2 ^ 63 < 2 := Nat.div_lt_of_lt_mul b.isLt
  unfold Sign.ofBitVec
  split
  · rename_i hzero
    rw [← hsign, hzero]
    rfl
  · rename_i hne
    have hone : b.toNat / 2 ^ 63 ≠ 0 := fun hzero => hne (BitVec.toNat_inj.mp (hsign.trans hzero))
    rw [show b.toNat / 2 ^ 63 = 1 by omega]
    rfl

/-- The bits of a finite float are decoded to the number that it stands for. -/
theorem exactValue_eq {v : Float} {d : Dyadic} (h : Dyadic.ofFloat? v = some d) :
    exactValue v = d.value := by
  let b : BitVec 64 := v.toBits.toBitVec
  have hunpack : v.toModel.unpack = UnpackedFloat.unpack .binary64 b := rfl
  have hbias : ((Float.Model.Format.binary64.exponentBias : Nat) : Int) = 1023 := rfl
  have hsign := negative_unpackSign b
  have hmantissa := toNat_unpackMantissa b
  have hexponent := toNat_unpackExponent b
  unfold Dyadic.ofFloat? at h
  dsimp only at h
  split at h
  · cases h
  rename_i hfull
  have hfull' : @unpackExponent .binary64 b ≠ -1#11 := fun hones =>
    hfull ((unpackExponent_eq_iff b).mp hones)
  unfold exactValue
  rw [hunpack]
  unfold UnpackedFloat.unpack
  dsimp only
  rw [if_neg hfull']
  split at h
  · rename_i hsubnormal
    cases h
    have hzero : @unpackExponent .binary64 b = 0#11 :=
      BitVec.toNat_inj.mp (hexponent.trans hsubnormal)
    have hleast : ((@unpackExponent .binary64 b).toNat : Int) - (1023 + (52 : Nat)) + 1 = -1074 := by
      rw [hzero]
      rfl
    rw [if_pos hzero]
    by_cases hnone : @unpackMantissa .binary64 b = 0#52
    · have hfraction : b.toNat % 2 ^ 52 = 0 := by
        rw [← hmantissa, hnone]
        rfl
      rw [dif_pos hnone]
      show 0 = signFactor _ * (((b.toNat % 2 ^ 52 : Nat) : ℚ) * _)
      rw [hfraction, Nat.cast_zero, zero_mul, mul_zero]
    · rw [dif_neg hnone]
      dsimp only
      rw [hbias, hleast, hsign, hmantissa]
      rfl
  · rename_i hnormal
    cases h
    have hone : @unpackExponent .binary64 b ≠ 0#11 := fun hzero =>
      hnormal (hexponent.symm.trans (by rw [hzero]; rfl))
    have hdigits : (1#1 ++ @unpackMantissa .binary64 b).toNat = b.toNat % 2 ^ 52 + 2 ^ 52 := by
      rw [BitVec.toNat_append, ← Nat.shiftLeft_add_eq_or_of_lt (BitVec.isLt _), hmantissa,
        Nat.add_comm]
      rfl
    rw [if_neg hone]
    dsimp only
    rw [hbias, hsign, hdigits, hexponent]
    rfl

/-! ## Nearest integers -/

/-- An integer is nearest to a number if no other is nearer; at a tie it is the even one. -/
def IsNearest (q : ℚ) (k : ℤ) : Prop := |q - k| < 1 / 2 ∨ |q - k| = 1 / 2 ∧ Even k

namespace IsNearest

variable {q : ℚ} {j k : ℤ}

theorem dist_le (h : IsNearest q k) : |q - k| ≤ 1 / 2 := h.elim le_of_lt fun htie => le_of_eq htie.1

theorem even_of_tie (h : IsNearest q k) (htie : |q - k| = 1 / 2) : Even k :=
  h.elim (fun hlt => absurd htie (ne_of_lt hlt)) fun htie => htie.2

/-- Two neighbours are both nearest only at a tie, and then one of them is odd. -/
theorem not_succ (h : IsNearest q k) : ¬ IsNearest q (k + 1) := by
  intro hsucc
  have hlow := abs_le.mp h.dist_le
  have hhigh := abs_le.mp hsucc.dist_le
  push_cast at hhigh
  have hq : q = k + 1 / 2 := by linarith
  have heven : Even k := h.even_of_tie (by rw [hq, add_sub_cancel_left]; norm_num)
  have heven' : Even (k + 1) := hsucc.even_of_tie (by rw [hq]; push_cast; ring_nf; norm_num)
  exact Int.not_even_iff_odd.mpr heven.add_one heven'

theorem unique (hj : IsNearest q j) (hk : IsNearest q k) : j = k := by
  have hdistance : |(j - k : ℚ)| ≤ 1 := by
    have hsum := abs_sub_le (j : ℚ) q k
    rw [abs_sub_comm (j : ℚ) q] at hsum
    linarith [hj.dist_le, hk.dist_le]
  have hdistance' : |j - k| ≤ 1 := by exact_mod_cast hdistance
  obtain hlt | heq | hgt := lt_trichotomy j k
  · obtain rfl : k = j + 1 := by
      have hbounds := abs_le.mp hdistance'
      omega
    exact absurd hk hj.not_succ
  · exact heq
  · obtain rfl : j = k + 1 := by
      have hbounds := abs_le.mp hdistance'
      omega
    exact absurd hj hk.not_succ

theorem neg (h : IsNearest q k) : IsNearest (-q) (-k) := by
  have habs : |-q - ((-k : ℤ) : ℚ)| = |q - k| := by
    rw [← abs_neg (q - k)]
    congr 1
    push_cast
    ring
  unfold IsNearest
  rw [habs, even_neg]
  exact h

end IsNearest

theorem isNearest_roundHalfEven (num : Nat) {den : Nat} (h : 0 < den) :
    IsNearest (num / den) (roundHalfEven num den : Nat) := by
  have hden : (0 : ℚ) < den := by exact_mod_cast h
  -- The fraction is its quotient and a rest below one.
  obtain ⟨x, hx, hfraction⟩ : ∃ x : ℚ, x * den = (num % den : Nat) ∧
      (num / den : ℚ) = (num / den : Nat) + x := by
    refine ⟨(num % den : Nat) / den, div_mul_cancel₀ _ hden.ne', ?_⟩
    have hsplit : (num : ℚ) = den * (num / den : Nat) + (num % den : Nat) := by
      exact_mod_cast (Nat.div_add_mod num den).symm
    rw [div_eq_iff hden.ne', add_mul, div_mul_cancel₀ _ hden.ne', mul_comm]
    exact hsplit
  have hnonneg : 0 ≤ x := nonneg_of_mul_nonneg_left (hx ▸ Nat.cast_nonneg _) hden
  have hless : x < 1 ∧ (2 * (num % den) < den ↔ x < 1 / 2) ∧ (den < 2 * (num % den) ↔ 1 / 2 < x) := by
    have hscale : ((2 * (num % den) : Nat) : ℚ) = 2 * x * den := by
      rw [Nat.cast_mul, ← hx]
      push_cast
      ring
    have hcast : ∀ m n : Nat, m < n ↔ (m : ℚ) < n := fun m n => Nat.cast_lt.symm
    refine ⟨?_, ?_, ?_⟩
    · have hrest : ((num % den : Nat) : ℚ) < den := by exact_mod_cast Nat.mod_lt num h
      nlinarith
    · rw [hcast, hscale]
      constructor <;> intro <;> nlinarith
    · rw [hcast, hscale]
      constructor <;> intro <;> nlinarith
  obtain ⟨hone, hbelow, habove⟩ := hless
  rw [hfraction]
  unfold roundHalfEven
  dsimp only
  split
  case isTrue hsmall =>
    left
    rw [Int.cast_natCast, add_sub_cancel_left, abs_of_nonneg hnonneg]
    exact hbelow.mp hsmall
  case isFalse hsmall =>
    split
    case isTrue hlarge =>
      left
      have hx' := habove.mp hlarge
      rw [Int.cast_natCast, abs_lt]
      push_cast
      constructor <;> linarith
    case isFalse hlarge =>
      have hhalf : x = 1 / 2 :=
        le_antisymm (not_lt.mp (mt habove.mpr hlarge)) (not_lt.mp (mt hbelow.mpr hsmall))
      right
      obtain heven | hodd := Nat.mod_two_eq_zero_or_one (num / den)
      · rw [heven, hhalf, Nat.add_zero, Int.cast_natCast, add_sub_cancel_left]
        exact ⟨by norm_num, by exact_mod_cast Nat.even_iff.mpr heven⟩
      · rw [hodd, hhalf]
        refine ⟨?_, by exact_mod_cast (Nat.odd_iff.mpr hodd).add_one⟩
        rw [Int.cast_natCast, Nat.cast_add, Nat.cast_one, add_sub_add_left_eq_sub]
        norm_num

/-! ## Units of a decimal place -/

theorem Dyadic.value_eq (d : Dyadic) :
    d.value = signFactor d.negative * ((d.numerator : ℚ) / d.denominator) := by
  obtain ⟨negative, m, e⟩ := d
  have hpower : ∀ n : Nat, Nat.pow 2 n = 2 ^ n := fun _ => rfl
  unfold value numerator denominator
  dsimp only
  congr 1
  rw [hpower, hpower]
  obtain ⟨n, rfl | rfl⟩ := e.eq_nat_or_neg
  · have htop : (-(n : Int)).toNat = 0 := by omega
    rw [htop, Int.toNat_natCast, zpow_natCast]
    push_cast
    ring
  · have htop : (-(n : Int)).toNat = 0 := by omega
    rw [htop, neg_neg, Int.toNat_natCast, zpow_neg, zpow_natCast]
    push_cast
    ring

/-- The units of the last decimal place, with the sign, are nearest to the number in these units. -/
theorem Dyadic.isNearest_scaled (places : Nat) (d : Dyadic) :
    IsNearest (10 ^ places * d.value)
      (if d.negative then -(d.scaled places : Int) else d.scaled places) := by
  have hunits := isNearest_roundHalfEven (Nat.pow 10 places * d.numerator) d.denominator_pos
  have hscale : (10 ^ places * d.value : ℚ) = signFactor d.negative *
      (((Nat.pow 10 places * d.numerator : Nat) : ℚ) / d.denominator) := by
    rw [d.value_eq, Nat.cast_mul, show Nat.pow 10 places = 10 ^ places from rfl, Nat.cast_pow]
    push_cast
    ring
  rw [hscale]
  cases d.negative with
  | false =>
    rw [signFactor, if_neg Bool.false_ne_true, one_mul]
    exact hunits
  | true =>
    rw [signFactor, if_pos rfl, neg_one_mul]
    exact hunits.neg

end TurtleTrace
