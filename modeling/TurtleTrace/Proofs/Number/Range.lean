import Mathlib.Algebra.Group.Int.Defs
import TurtleTrace.Number.Literal
import TurtleTrace.Proofs.Number.Finite
import TurtleTrace.Proofs.Number.Numeral

/-!
# Decimals in the range of floats

A literal is read as a finite float if it has at most six places and is not close to the largest float,
or if it is a whole number that a float can hold without rounding.
-/

namespace TurtleTrace

set_option autoImplicit false

open Float.Model (UnpackedFloat totalExponent)
open Float.Model.UnpackedFloat (Sign roundWithAccuracy)

/-! ## Integers and powers of ten -/

theorem isFinite_toFloat (n : UInt64) : n.toFloat.isFinite = true := by
  show (Float.ofModel (Float.Model.pack
    (UnpackedFloat.normalize .binary64 (n.toNat : Int) 0 .positive))).isFinite = true
  unfold UnpackedFloat.normalize
  split
  · rename_i hsign
    have hneg := Int.compare_eq_lt.mp hsign
    omega
  · exact isFinite_pack_zero _
  · rename_i hsign
    have hpos := Int.compare_eq_gt.mp hsign
    unfold UnpackedFloat.round UnpackedFloat.decreaseExponent
    dsimp only
    generalize (_ - _ : Int).toNat = shift
    rw [Int.toNat_natCast, Nat.shiftLeft_eq]
    have hlog : n.toNat.log2 < 64 := (Nat.log2_lt (by omega)).mpr n.toNat_lt
    refine isFinite_roundWithAccuracy _ _ (by omega) ?_
    unfold totalExponent
    rw [log2_mul_two_pow (by omega)]
    omega

theorem unpack_of_bits {power : Float} (bits : UInt64) {m : Nat} {e : Int} {hm : 0 < m}
    (hpower : power = Float.ofBits bits)
    (hbits : (Float.ofBits bits).toModel.unpack = .finite .positive m e hm) :
    power.toModel.unpack = .finite .positive m e hm :=
  hpower ▸ hbits

theorem unpack_powersOfTen {k : Nat} (hpos : 0 < k) (hk : k ≤ 6)
    (h : k < Float.exactlyRepresentablePowersOfTen.size) :
    ∃ m e, ∃ hm : 0 < m, Float.exactlyRepresentablePowersOfTen[k].toModel.unpack =
      .finite .positive m e hm ∧ 2 ≤ totalExponent m e := by
  match k, hpos, hk with
  | 1, _, _ => exact ⟨10 * 2 ^ 49, -49, by decide,
      unpack_of_bits 0x4024000000000000 (by rfl) (by rfl), by decide⟩
  | 2, _, _ => exact ⟨100 * 2 ^ 46, -46, by decide,
      unpack_of_bits 0x4059000000000000 (by rfl) (by rfl), by decide⟩
  | 3, _, _ => exact ⟨1000 * 2 ^ 43, -43, by decide,
      unpack_of_bits 0x408F400000000000 (by rfl) (by rfl), by decide⟩
  | 4, _, _ => exact ⟨10000 * 2 ^ 39, -39, by decide,
      unpack_of_bits 0x40C3880000000000 (by rfl) (by rfl), by decide⟩
  | 5, _, _ => exact ⟨100000 * 2 ^ 36, -36, by decide,
      unpack_of_bits 0x40F86A0000000000 (by rfl) (by rfl), by decide⟩
  | 6, _, _ => exact ⟨1000000 * 2 ^ 33, -33, by decide,
      unpack_of_bits 0x412E848000000000 (by rfl) (by rfl), by decide⟩

/-! ## Decimals -/

/-- Whole numbers that are read as finite floats: the small ones, and those that need no rounding. -/
def Holds (n : Nat) : Prop := n < 2 ^ 128 ∨ ∃ a k, n = a * 2 ^ k ∧ a < 2 ^ 53 ∧ k ≤ 971

theorem log2_lt_of_lt {n : Nat} (h : n < 2 ^ 128) : n.log2 < 128 := by
  by_cases hn : n = 0
  · rw [hn]
    decide
  · exact (Nat.log2_lt hn).mpr h

theorem exponentBits_power : (2 : Int) ^ Float.Model.Format.binary64.exponentBits = 2048 := by decide

theorem isFinite_ofScientific_whole {n : Nat} (h : Holds n) :
    (Float.ofScientific n false 0).isFinite = true := by
  unfold Float.ofScientific
  split
  · have hone : Float.exactlyRepresentablePowersOfTen[0].toModel.unpack =
        .finite .positive (2 ^ 52) (-52) (by decide) :=
      unpack_of_bits 0x3FF0000000000000 (by rfl) (by rfl)
    exact isFinite_mul_one (isFinite_toFloat _) hone
  · show (Float.ofModel (Float.Model.pack (UnpackedFloat.ofScientific .binary64 n 0))).isFinite = true
    unfold UnpackedFloat.ofScientific
    rw [exponentBits_power]
    by_cases hn : n = 0
    · rw [dif_pos hn]
      exact isFinite_pack_zero _
    · rw [dif_neg hn, if_neg (by decide), if_neg (by omega), if_pos (Int.le_refl 0)]
      unfold UnpackedFloat.mul
      dsimp only
      have hbits : Float.Model.Format.binary64.mantissaBits = 53 := rfl
      have hone : 10 ^ Int.toNat 0 = 1 := rfl
      rw [hbits, hone, Nat.mul_one, Nat.shiftLeft_eq]
      obtain hsmall | ⟨a, k, rfl, ha, hk⟩ := h
      · have hlog := log2_lt_of_lt hsmall
        refine isFinite_roundWithAccuracy _ _ (by decide) ?_
        unfold totalExponent
        rw [log2_mul_two_pow hn]
        omega
      · rw [Nat.mul_assoc, ← Nat.pow_add]
        exact isFinite_roundWithAccuracy_exact _ ha (by decide) (by omega)

theorem isFinite_ofScientific_places {n k : Nat} (hn : n < 2 ^ 128) (hpos : 0 < k) (hk : k ≤ 6) :
    (Float.ofScientific n true k).isFinite = true := by
  unfold Float.ofScientific
  split
  · obtain ⟨m, e, hm, hpower, htotal⟩ := unpack_powersOfTen hpos hk
      (Nat.lt_of_le_of_lt hk (by decide))
    exact isFinite_div_of_two_le (isFinite_toFloat _) hpower htotal
  · show (Float.ofModel (Float.Model.pack
      (UnpackedFloat.ofScientific .binary64 n (Int.negOfNat k)))).isFinite = true
    have hexponent : Int.negOfNat k = -(k : Int) := Int.negOfNat_eq
    unfold UnpackedFloat.ofScientific
    rw [exponentBits_power, hexponent]
    by_cases hzero : n = 0
    · rw [dif_pos hzero]
      exact isFinite_pack_zero _
    · have hlog := log2_lt_of_lt hn
      rw [dif_neg hzero, if_neg (by omega), if_neg (by omega), if_neg (by omega)]
      refine isFinite_div _ _ ?_
      unfold totalExponent
      omega

/-! ## Literals -/

theorem Holds.lt_two_pow {n top : Nat} (h : Holds n) (htop : 1024 ≤ top) : n < 2 ^ top := by
  obtain hsmall | ⟨a, k, rfl, ha, hk⟩ := h
  · exact Nat.lt_of_lt_of_le hsmall (Nat.pow_le_pow_right Nat.two_pos (by omega))
  · calc a * 2 ^ k < 2 ^ 53 * 2 ^ k := Nat.mul_lt_mul_of_pos_right ha (Nat.two_pow_pos k)
      _ = 2 ^ (53 + k) := (Nat.pow_add ..).symm
      _ ≤ 2 ^ top := Nat.pow_le_pow_right Nat.two_pos (by omega)

theorem Holds.length_le {n : Nat} (h : Holds n) : (Text.ofNat n).length ≤ 310 := by
  rw [Text.length_ofNat_le_iff (by decide)]
  refine Nat.lt_of_lt_of_le (h.lt_two_pow (Nat.le_refl 1024)) ?_
  decide +kernel

/-- A literal with up to six places, or with none, is a finite float unless it is too large. -/
theorem isFinite_ofDecimal {n k : Nat} (hk : k ≤ 6) (h : n < 2 ^ 128 ∨ k = 0 ∧ Holds n) :
    (ofDecimal n (-k)).isFinite = true := by
  have hholds : Holds n := h.elim .inl (·.2)
  have hlength := hholds.length_le
  unfold ofDecimal
  dsimp only
  split
  · decide +kernel
  · rw [if_neg (by omega), if_neg (by omega), Int.natAbs_neg, Int.natAbs_natCast]
    cases k with
    | zero => exact isFinite_ofScientific_whole hholds
    | succ k =>
      have hsmall : n < 2 ^ 128 := h.elim id fun hwhole => absurd hwhole.1 (Nat.succ_ne_zero k)
      have hnegative : -((k + 1 : Nat) : Int) < 0 := by omega
      rw [decide_eq_true hnegative]
      exact isFinite_ofScientific_places hsmall (Nat.succ_pos k) hk

end TurtleTrace
