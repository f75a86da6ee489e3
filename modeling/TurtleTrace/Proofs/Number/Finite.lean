import Mathlib.Algebra.Group.Nat.Defs

/-!
# Finite floats

A float is finite unless its exponent field is full. Division by 360 never leaves the finite floats,
and products of finite floats are numbers, finite or not.
-/

namespace TurtleTrace

set_option autoImplicit false

open Float.Model (UnpackedFloat totalExponent)
open Float.Model.UnpackedFloat (Sign Accuracy ExtendedMantissa unpackExponent unpackMantissa
  unpackExponent_packComponents unpackMantissa_packComponents roundWithAccuracy
  shiftToTargetExponent shiftToExponent)

/-! ## Finite floats -/

/-- The power of two among the bits of a float. -/
def powerField (bits : Nat) : Nat := bits / Nat.pow 2 52 % Nat.pow 2 11

theorem toNat_unpackExponent (b : BitVec 64) :
    (@unpackExponent .binary64 b).toNat = powerField b.toNat := by
  unfold unpackExponent
  rw [BitVec.toNat_cast, BitVec.extractLsb_toNat, Nat.shiftRight_eq_div_pow]
  rfl

theorem unpackExponent_eq_iff (b : BitVec 64) :
    @unpackExponent .binary64 b = -1#11 ↔ powerField b.toNat = 2047 := by
  rw [← toNat_unpackExponent, ← BitVec.toNat_inj]
  exact Iff.rfl

/-- What the bits of a float hold: the mantissa has at most 53 binary digits and the exponent is at
most 971, unless the exponent field is full. -/
inductive Unpacked (b : BitVec 64) : UnpackedFloat → Prop
  | infinity (s : Sign) (h : @unpackExponent .binary64 b = -1#11) : Unpacked b (.infinity s)
  | notANumber (h : @unpackExponent .binary64 b = -1#11) : Unpacked b .notANumber
  | zero (s : Sign) (h : @unpackExponent .binary64 b ≠ -1#11) : Unpacked b (.zero s)
  | finite (s : Sign) (m : Nat) (e : Int) (hm : 0 < m) (h : @unpackExponent .binary64 b ≠ -1#11)
      (hdigits : m < 2 ^ 53) (hexponent : e ≤ 971) : Unpacked b (.finite s m e hm)

theorem unpacked (b : BitVec 64) : Unpacked b (UnpackedFloat.unpack .binary64 b) := by
  have hbias : ((Float.Model.Format.binary64.exponentBias : Nat) : Int) = 1023 := rfl
  have hsize : (@unpackExponent .binary64 b).toNat < 2 ^ 11 := (@unpackExponent .binary64 b).isLt
  have hfraction : (@unpackMantissa .binary64 b).toNat < 2 ^ 52 := (@unpackMantissa .binary64 b).isLt
  unfold UnpackedFloat.unpack
  dsimp only
  by_cases hfull : @unpackExponent .binary64 b = -1#11
  · rw [if_pos hfull]
    by_cases hinfinity : @unpackMantissa .binary64 b = 0#52
    · rw [if_pos hinfinity]
      exact .infinity _ hfull
    · rw [if_neg hinfinity]
      exact .notANumber hfull
  · rw [if_neg hfull]
    have hne : (@unpackExponent .binary64 b).toNat ≠ 2047 := fun hbits =>
      hfull (BitVec.toNat_inj.mp hbits)
    by_cases hsubnormal : @unpackExponent .binary64 b = 0#11
    · rw [if_pos hsubnormal]
      by_cases hzero : @unpackMantissa .binary64 b = 0#52
      · rw [dif_pos hzero]
        exact .zero _ hfull
      · rw [dif_neg hzero]
        refine .finite _ _ _ _ hfull (by omega) ?_
        rw [hbias, hsubnormal]
        decide
    · rw [if_neg hsubnormal]
      refine .finite _ _ _ _ hfull (1#1 ++ @unpackMantissa .binary64 b).isLt ?_
      rw [hbias]
      omega

theorem isFinite_unpack (b : BitVec 64) :
    (UnpackedFloat.unpack .binary64 b).isFinite = true ↔ @unpackExponent .binary64 b ≠ -1#11 := by
  have hu := unpacked b
  generalize UnpackedFloat.unpack .binary64 b = u at hu ⊢
  cases hu with
  | infinity s h | notANumber h => exact iff_of_false Bool.false_ne_true (fun hne => hne h)
  | zero s h | finite s m e hm h => exact iff_of_true rfl h

theorem isFinite_iff_powerField (v : Float) :
    v.isFinite = true ↔ powerField v.toBits.toNat ≠ 2047 :=
  (isFinite_unpack v.toBits.toBitVec).trans (not_congr (unpackExponent_eq_iff _))

/-! ## Floats from bits -/

theorem bounds_of_unpack {b : BitVec 64} {s : Sign} {m : Nat} {e : Int} {hm : 0 < m}
    (h : UnpackedFloat.unpack .binary64 b = .finite s m e hm) : m < 2 ^ 53 ∧ e ≤ 971 := by
  have hu := unpacked b
  rw [h] at hu
  cases hu with
  | finite _ _ _ _ _ hdigits hexponent => exact ⟨hdigits, hexponent⟩

/-- What is packed without an overflow is finite. -/
theorem isFinite_pack {s : Sign} {m : Nat} {e : Int} {hm : 0 < m} (he : e ≤ 971) :
    (Float.ofModel (Float.Model.pack (.finite s m e hm))).isFinite = true := by
  refine (isFinite_unpack _).mpr ?_
  show @unpackExponent .binary64 (UnpackedFloat.pack .binary64 (.finite s m e hm)) ≠ _
  have hbias : (e + (Float.Model.Format.binary64.exponentBias : Nat) + (52 : Nat)).toNat =
      (e + 1075).toNat := by
    show (e + 1023 + 52).toNat = _
    omega
  unfold UnpackedFloat.pack
  dsimp only
  rw [hbias]
  split
  · rename_i hlarge
    have hpower : (2 : Nat) ^ 11 = 2048 := rfl
    omega
  · split
    · rw [unpackExponent_packComponents]
      intro h
      have hnat := congrArg BitVec.toNat h
      rw [BitVec.toNat_ofNat, Nat.mod_eq_of_lt (by omega)] at hnat
      have hones : (-1#11).toNat = 2047 := rfl
      omega
    · rw [unpackExponent_packComponents]
      decide

theorem isFinite_ofBits {bits : UInt64} (h : powerField bits.toNat ≠ 2047) :
    (Float.ofBits bits).isFinite = true := by
  have hfinite := (isFinite_unpack bits.toBitVec).mpr (mt (unpackExponent_eq_iff _).mp h)
  unfold Float.ofBits Float.Model.ofBits
  cases hu : UnpackedFloat.unpack .binary64 bits.toBitVec with
  | finite s m e hm => exact isFinite_pack (bounds_of_unpack hu).2
  | zero s => cases s <;> decide +kernel
  | infinity s =>
    rw [hu] at hfinite
    cases hfinite
  | notANumber =>
    rw [hu] at hfinite
    cases hfinite

/-! ## Rounding -/

theorem mantissa_shiftRight (em : ExtendedMantissa) (k : Nat) :
    (em >>> k).mantissa = em.mantissa / 2 ^ k := by
  induction k with
  | zero => exact (Nat.div_one _).symm
  | succ k ih =>
    show (em >>> k).mantissa / 2 = _
    rw [ih, Nat.div_div_eq_div_mul, ← Nat.pow_succ]

theorem roundedMantissa_le (em : ExtendedMantissa) : em.roundedMantissa ≤ em.mantissa + 1 := by
  unfold ExtendedMantissa.roundedMantissa Accuracy.roundToNearestEven
  split <;> omega

theorem snd_shiftToTargetExponent (m : Nat) (e : Int) (a : Accuracy) :
    (shiftToTargetExponent .binary64 m e a).2 = max e (max (totalExponent m e - 53) (-1074)) := by
  show e + ((max (totalExponent m e - 53) (-1074) - e).toNat : Int) = _
  omega

theorem roundedMantissa_shiftToTargetExponent (m : Nat) (e : Int) (a : Accuracy) :
    (shiftToTargetExponent .binary64 m e a).1.roundedMantissa ≤ 2 ^ 53 := by
  have hround := roundedMantissa_le (shiftToTargetExponent .binary64 m e a).1
  have hmantissa : (shiftToTargetExponent .binary64 m e a).1.mantissa =
      m / 2 ^ (max (totalExponent m e - 53) (-1074) - e).toNat := by
    refine (mantissa_shiftRight (.ofMantissaAndAccuracy m a) _).trans ?_
    congr 1
    unfold ExtendedMantissa.ofMantissaAndAccuracy
    split <;> rfl
  have hquotient : m / 2 ^ (max (totalExponent m e - 53) (-1074) - e).toNat < 2 ^ 53 := by
    refine (Nat.div_lt_iff_lt_mul (Nat.two_pow_pos _)).mpr ?_
    rw [← Nat.pow_add]
    refine Nat.lt_of_lt_of_le Nat.lt_log2_self (Nat.pow_le_pow_right Nat.two_pos ?_)
    unfold totalExponent
    omega
  omega

theorem isFinite_pack_zero (s : Sign) :
    (Float.ofModel (Float.Model.pack (.zero s))).isFinite = true := by
  cases s <;> decide +kernel

/-- Rounding gives a zero, or a mantissa at the exponent the second of its two shifts reaches. -/
theorem roundWithAccuracy_cases (s : Sign) (m : Nat) (e : Int) (a : Accuracy) :
    roundWithAccuracy .binary64 s m e a = .zero s ∨
      ∃ em e₁, shiftToTargetExponent .binary64 m e a = (em, e₁) ∧
        ∃ m' hm, roundWithAccuracy .binary64 s m e a = .finite s m'
          (shiftToTargetExponent .binary64 em.roundedMantissa e₁ .exact).2 hm := by
  unfold roundWithAccuracy
  obtain ⟨em, e₁⟩ := shiftToTargetExponent .binary64 m e a
  dsimp only
  by_cases hzero : (shiftToTargetExponent .binary64 em.roundedMantissa e₁ .exact).1.mantissa = 0
  · exact .inl (dif_pos hzero)
  · exact .inr ⟨em, e₁, rfl, _, Nat.pos_of_ne_zero hzero, dif_neg hzero⟩

/-- What is smaller than half the largest power of two is rounded to a finite float. -/
theorem isFinite_roundWithAccuracy (s : Sign) {m : Nat} {e : Int} (a : Accuracy)
    (hexponent : e ≤ 970) (htotal : totalExponent m e ≤ 1023) :
    (Float.ofModel (Float.Model.pack (roundWithAccuracy .binary64 s m e a))).isFinite = true := by
  obtain hround | ⟨em, e₁, hshift, m', hm, hround⟩ := roundWithAccuracy_cases s m e a
  · rw [hround]
    exact isFinite_pack_zero s
  · have hfirst := snd_shiftToTargetExponent m e a
    have hdigits := roundedMantissa_shiftToTargetExponent m e a
    rw [hshift] at hfirst hdigits
    dsimp only at hfirst hdigits
    have hlog : em.roundedMantissa.log2 < 54 := by
      by_cases hzero : em.roundedMantissa = 0
      · rw [hzero]
        decide
      · exact (Nat.log2_lt hzero).mpr (by omega)
    -- Rounding up may carry into one more digit.
    have hcarry : totalExponent em.roundedMantissa e₁ ≤ e₁ + 54 := by
      unfold totalExponent
      omega
    rw [hround]
    refine isFinite_pack ?_
    rw [snd_shiftToTargetExponent]
    omega

/-- Shifting a multiple of a power of two by no more than that loses nothing. -/
theorem shiftRight_multiple (a : Nat) {j k : Nat} (h : j ≤ k) :
    ExtendedMantissa.mk (a * 2 ^ k) false false >>> j = ⟨a * 2 ^ (k - j), false, false⟩ := by
  induction j with
  | zero => rfl
  | succ j ih =>
    have hpower : a * 2 ^ (k - j) = 2 * (a * 2 ^ (k - (j + 1))) := by
      rw [show k - j = k - (j + 1) + 1 by omega, Nat.pow_succ]
      ac_rfl
    show (ExtendedMantissa.mk (a * 2 ^ k) false false >>> j).shiftRightOne = _
    rw [ih (by omega), hpower]
    simp [ExtendedMantissa.shiftRightOne]

theorem log2_mul_two_pow {a : Nat} (ha : a ≠ 0) (k : Nat) : (a * 2 ^ k).log2 = a.log2 + k := by
  have hlower := Nat.log2_self_le ha
  have hupper := @Nat.lt_log2_self a
  have hne : a * 2 ^ k ≠ 0 := Nat.mul_ne_zero ha (Nat.ne_of_gt (Nat.two_pow_pos k))
  refine (Nat.log2_eq_iff hne).mpr ⟨?_, ?_⟩
  · rw [Nat.pow_add]
    exact Nat.mul_le_mul_right _ hlower
  · rw [show a.log2 + k + 1 = a.log2 + 1 + k by omega, Nat.pow_add]
    exact Nat.mul_lt_mul_of_pos_right hupper (Nat.two_pow_pos k)

/-- What a float can hold without rounding is not rounded out of the finite floats. -/
theorem isFinite_roundWithAccuracy_exact (s : Sign) {a k : Nat} {e : Int} (ha : a < 2 ^ 53)
    (hexponent : e ≤ 970) (htop : e + k ≤ 971) :
    (Float.ofModel (Float.Model.pack (roundWithAccuracy .binary64 s (a * 2 ^ k) e .exact))).isFinite =
      true := by
  by_cases htotal : totalExponent (a * 2 ^ k) e ≤ 1023
  · exact isFinite_roundWithAccuracy s .exact hexponent htotal
  by_cases hzero : a = 0
  · subst hzero
    rw [Nat.zero_mul] at htotal
    exact absurd (show totalExponent 0 e ≤ 1023 by unfold totalExponent; simp; omega) htotal
  have hlog : a.log2 < 53 := (Nat.log2_lt hzero).mpr ha
  have htotal' : totalExponent (a * 2 ^ k) e = a.log2 + k + 1 + e := by
    unfold totalExponent
    rw [log2_mul_two_pow hzero]
    omega
  let shift := (max (totalExponent (a * 2 ^ k) e - 53) (-1074) - e).toNat
  have hshort : shift ≤ k := by omega
  -- The first of the two shifts is exact, so that nothing is carried.
  have hfirst : shiftToTargetExponent .binary64 (a * 2 ^ k) e .exact =
      (⟨a * 2 ^ (k - shift), false, false⟩, e + shift) :=
    Prod.ext (shiftRight_multiple a hshort) rfl
  obtain hround | ⟨em, e₁, hshift, m', hm, hround⟩ :=
    roundWithAccuracy_cases s (a * 2 ^ k) e .exact
  · rw [hround]
    exact isFinite_pack_zero s
  · rw [hfirst] at hshift
    cases hshift
    rw [hround]
    refine isFinite_pack ?_
    have hsecond : totalExponent (a * 2 ^ (k - shift)) (e + shift) = a.log2 + k + 1 + e := by
      unfold totalExponent
      rw [log2_mul_two_pow hzero]
      omega
    rw [snd_shiftToTargetExponent]
    show max _ (max (totalExponent (a * 2 ^ (k - shift)) (e + shift) - 53) _) ≤ _
    omega

theorem isNaN_roundWithAccuracy (s : Sign) (m : Nat) (e : Int) (a : Accuracy) :
    (roundWithAccuracy .binary64 s m e a).isNaN = false := by
  obtain hround | ⟨_, _, _, _, _, hround⟩ := roundWithAccuracy_cases s m e a
  · rw [hround]
    rfl
  · rw [hround]
    rfl

/-! ## Quotients, products and sums -/

variable {x y : Float}

/-- A finite float is a signed zero, or a mantissa and an exponent within the bounds. -/
theorem unpack_of_isFinite (hx : x.isFinite = true) :
    (∃ s, x.toModel.unpack = .zero s) ∨
      ∃ s m e, ∃ hm : 0 < m, x.toModel.unpack = .finite s m e hm ∧ m < 2 ^ 53 ∧ e ≤ 971 := by
  unfold Float.isFinite Float.Model.isFinite at hx
  cases hu : x.toModel.unpack with
  | zero s => exact .inl ⟨s, rfl⟩
  | finite s m e hm => exact .inr ⟨s, m, e, hm, rfl, bounds_of_unpack hu⟩
  | infinity s | notANumber =>
    rw [hu] at hx
    cases hx

theorem isFinite_abs (hx : x.isFinite = true) : x.abs.isFinite = true := by
  unfold Float.abs Float.Model.abs
  obtain ⟨s, hu⟩ | ⟨s, m, e, hm, hu, -, he⟩ := unpack_of_isFinite hx
  · rw [hu]
    exact isFinite_pack_zero _
  · rw [hu]
    exact isFinite_pack he

theorem isFinite_neg (hx : x.isFinite = true) : (-x).isFinite = true := by
  show (Float.ofModel (Float.Model.pack x.toModel.unpack.neg)).isFinite = true
  obtain ⟨s, hu⟩ | ⟨s, m, e, hm, hu, -, he⟩ := unpack_of_isFinite hx
  · rw [hu]
    exact isFinite_pack_zero _
  · rw [hu]
    exact isFinite_pack he

theorem isFinite_neg_eq (x : Float) : (-x).isFinite = x.isFinite := by
  cases hx : x.isFinite with
  | true => exact isFinite_neg hx
  | false =>
    show (Float.ofModel (Float.Model.pack x.toModel.unpack.neg)).isFinite = false
    unfold Float.isFinite Float.Model.isFinite at hx
    cases hu : x.toModel.unpack with
    | notANumber => decide +kernel
    | infinity s => cases s <;> decide +kernel
    | zero s | finite s m e hm =>
      rw [hu] at hx
      cases hx

theorem log2_shiftLeft_div_le (m n shift : Nat) :
    (m <<< shift / n).log2 ≤ m.log2 + shift - n.log2 := by
  by_cases hzero : m <<< shift / n = 0
  · rw [hzero]
    exact Nat.zero_le _
  have hn : n ≠ 0 := by
    rintro rfl
    exact hzero (Nat.div_zero _)
  refine Nat.le_of_lt_succ ((Nat.log2_lt hzero).mpr ?_)
  refine (Nat.div_lt_iff_lt_mul (Nat.pos_of_ne_zero hn)).mpr ?_
  have hpower : m.log2 + 1 + shift ≤ m.log2 + shift - n.log2 + 1 + n.log2 := by omega
  calc m <<< shift = m * 2 ^ shift := Nat.shiftLeft_eq m shift
    _ < 2 ^ (m.log2 + 1) * 2 ^ shift :=
        Nat.mul_lt_mul_of_pos_right Nat.lt_log2_self (Nat.two_pow_pos shift)
    _ = 2 ^ (m.log2 + 1 + shift) := (Nat.pow_add ..).symm
    _ ≤ 2 ^ (m.log2 + shift - n.log2 + 1 + n.log2) := Nat.pow_le_pow_right Nat.two_pos hpower
    _ = 2 ^ (m.log2 + shift - n.log2 + 1) * 2 ^ n.log2 := Nat.pow_add ..
    _ ≤ 2 ^ (m.log2 + shift - n.log2 + 1) * n := Nat.mul_le_mul_left _ (Nat.log2_self_le hn)

/-- A quotient is finite if it is smaller than the largest power of two. -/
theorem isFinite_div {s₁ s₂ : Sign} {m₁ m₂ : Nat} {e₁ e₂ : Int} (hm₁ : 0 < m₁) (hm₂ : 0 < m₂)
    (h : totalExponent m₁ e₁ - totalExponent m₂ e₂ ≤ 1022) :
    (Float.ofModel (Float.Model.pack (UnpackedFloat.div .binary64 (.finite s₁ m₁ e₁ hm₁)
      (.finite s₂ m₂ e₂ hm₂)))).isFinite = true := by
  unfold UnpackedFloat.div UnpackedFloat.divCore
  dsimp only
  have htarget : min (e₁ - e₂) (Float.Model.Format.binary64.targetExponent
      (totalExponent m₁ e₁ - totalExponent m₂ e₂)) ≤ min (e₁ - e₂) 969 := by
    show min _ (max (_ - _ - 53) (-1074)) ≤ _
    omega
  generalize min (e₁ - e₂) _ = target at htarget ⊢
  generalize hshift : (e₁ - e₂ - target).toNat = shift
  have hdigits := log2_shiftLeft_div_le m₁ m₂ shift
  refine isFinite_roundWithAccuracy _ _ (by omega) ?_
  unfold totalExponent at h ⊢
  omega

/-- Dividing by a number from two on never leaves the finite floats. -/
theorem isFinite_div_of_two_le {m : Nat} {e : Int} {hm : 0 < m} (hx : x.isFinite = true)
    (hy : y.toModel.unpack = .finite .positive m e hm) (h : 2 ≤ totalExponent m e) :
    (x / y).isFinite = true := by
  show (Float.ofModel (Float.Model.pack (UnpackedFloat.div .binary64 x.toModel.unpack
    y.toModel.unpack))).isFinite = true
  rw [hy]
  obtain ⟨s, hu⟩ | ⟨s, m', e', hm', hu, hmantissa, hexponent⟩ := unpack_of_isFinite hx
  · rw [hu]
    exact isFinite_pack_zero _
  · rw [hu]
    have hlog : m'.log2 < 53 := (Nat.log2_lt (by omega)).mpr hmantissa
    refine isFinite_div hm' hm ?_
    unfold totalExponent at h ⊢
    omega

theorem isFinite_div_360 (hx : x.isFinite = true) : (x / 360).isFinite = true := by
  have h360 : (360 : Float).toModel.unpack =
      .finite .positive (360 * 2 ^ 44) (-44) (by decide) := by rfl
  exact isFinite_div_of_two_le hx h360 (by decide)

/-- Multiplying by one never leaves the finite floats. -/
theorem isFinite_mul_one {hm : 0 < 2 ^ 52} (hx : x.isFinite = true)
    (hy : y.toModel.unpack = .finite .positive (2 ^ 52) (-52) hm) : (x * y).isFinite = true := by
  show (Float.ofModel (Float.Model.pack (UnpackedFloat.mul .binary64 x.toModel.unpack
    y.toModel.unpack))).isFinite = true
  rw [hy]
  obtain ⟨s, hu⟩ | ⟨s, m, e, hm, hu, hmantissa, hexponent⟩ := unpack_of_isFinite hx
  · rw [hu]
    exact isFinite_pack_zero _
  · rw [hu]
    exact isFinite_roundWithAccuracy_exact _ hmantissa (by omega) (by omega)

theorem isNaN_of_isFinite (hx : x.isFinite = true) : x.isNaN = false := by
  unfold Float.isNaN Float.Model.isNaN
  obtain ⟨s, hu⟩ | ⟨s, m, e, hm, hu, -⟩ := unpack_of_isFinite hx
  · rw [hu]
    rfl
  · rw [hu]
    rfl

theorem isInf_of_isFinite (hx : x.isFinite = true) : x.isInf = false := by
  unfold Float.isInf Float.Model.isInf
  obtain ⟨s, hu⟩ | ⟨s, m, e, hm, hu, -⟩ := unpack_of_isFinite hx
  · rw [hu]
    rfl
  · rw [hu]
    rfl

theorem isFinite_eq_not_isInf (hx : x.isNaN = false) : x.isFinite = !x.isInf := by
  unfold Float.isNaN Float.Model.isNaN at hx
  unfold Float.isInf Float.Model.isInf Float.isFinite Float.Model.isFinite
  cases hu : x.toModel.unpack with
  | notANumber =>
    rw [hu] at hx
    cases hx
  | infinity s | zero s | finite s m e hm => rfl

/-- Packing makes no number into NaN: what overflows becomes infinite. -/
theorem isNaN_pack {u : UnpackedFloat} (hu : u.isNaN = false) :
    (Float.ofModel (Float.Model.pack u)).isNaN = false := by
  cases u with
  | notANumber => cases hu
  | infinity s => cases s <;> decide +kernel
  | zero s => exact isNaN_of_isFinite (isFinite_pack_zero s)
  | finite s m e hm =>
    by_cases he : e ≤ 971
    · exact isNaN_of_isFinite (isFinite_pack he)
    · have hpack : UnpackedFloat.pack .binary64 (.finite s m e hm) =
          UnpackedFloat.pack .binary64 (.infinity s) := by
        refine if_pos ?_
        show 2048 ≤ (e + 1023 + 52).toNat + 1
        omega
      show (UnpackedFloat.unpack .binary64 (UnpackedFloat.pack .binary64 _)).isNaN = false
      rw [hpack]
      cases s <;> decide +kernel

theorem isNaN_mul (hx : x.isFinite = true) (hy : y.isFinite = true) : (x * y).isNaN = false := by
  refine isNaN_pack ?_
  obtain ⟨s, hu⟩ | ⟨s, m, e, hm, hu, -⟩ := unpack_of_isFinite hx
  · obtain ⟨s', hu'⟩ | ⟨s', m', e', hm', hu', -⟩ := unpack_of_isFinite hy
    · rw [hu, hu']
      rfl
    · rw [hu, hu']
      rfl
  · obtain ⟨s', hu'⟩ | ⟨s', m', e', hm', hu', -⟩ := unpack_of_isFinite hy
    · rw [hu, hu']
      rfl
    · rw [hu, hu']
      exact isNaN_roundWithAccuracy ..

theorem isNaN_add (hx : x.isNaN = false) (hy : y.isFinite = true) : (x + y).isNaN = false := by
  refine isNaN_pack ?_
  unfold Float.isNaN Float.Model.isNaN at hx
  obtain ⟨s, hu⟩ | ⟨s, m, e, hm, hu, -⟩ := unpack_of_isFinite hy
  · rw [hu]
    cases hv : x.toModel.unpack with
    | notANumber => rw [hv] at hx; cases hx
    | infinity s' => rfl
    | zero s' => cases s <;> cases s' <;> rfl
    | finite s' m' e' hm' => rfl
  · rw [hu]
    cases hv : x.toModel.unpack with
    | notANumber => rw [hv] at hx; cases hx
    | infinity s' => rfl
    | zero s' => rfl
    | finite s' m' e' hm' =>
      show (UnpackedFloat.normalize _ _ _ _).isNaN = false
      unfold UnpackedFloat.normalize
      split
      · exact isNaN_roundWithAccuracy ..
      · rfl
      · exact isNaN_roundWithAccuracy ..

end TurtleTrace
