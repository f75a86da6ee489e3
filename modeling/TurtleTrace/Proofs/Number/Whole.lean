import TurtleTrace.Number.Whole
import TurtleTrace.Proofs.Number.Finite

/-!
# Floats and integers

A float has an exact value if and only if it is finite, so only a float that is not finite has no
floor (`floorInt_eq_error_iff`). An integer has a float if and only if its size is below
`integerBound` (`ofInteger_eq_error_iff`), and the floor of a float always is (`floorInt_lt`).
-/

namespace TurtleTrace

set_option autoImplicit false

/-! ## Exact values -/

theorem isSome_ofFloat? (v : Float) : (Dyadic.ofFloat? v).isSome = v.isFinite := by
  have hfinite := isFinite_iff_powerField v
  unfold Dyadic.ofFloat?
  dsimp only
  split
  · rename_i h
    cases hv : v.isFinite with
    | false => rfl
    | true => exact absurd h (hfinite.mp hv)
  · rename_i h
    rw [hfinite.mpr h]
    split <;> rfl

/-- Only a float that is not finite has no floor. -/
theorem floorInt_eq_error_iff {v : Float} {fault : ArithmeticFault} :
    floorInt v = .error fault ↔ v.isFinite = false ∧
      fault = if v.isNaN then .notANumberToInteger else .infiniteToInteger := by
  have hsome := isSome_ofFloat? v
  unfold floorInt
  cases hv : Dyadic.ofFloat? v with
  | some d =>
    rw [hv] at hsome
    rw [← hsome]
    exact iff_of_false nofun (fun h => Bool.false_ne_true h.1.symm)
  | none =>
    rw [hv] at hsome
    rw [← hsome]
    exact ⟨fun h => ⟨rfl, (Except.error.inj h).symm⟩, fun h => congrArg _ h.2.symm⟩

/-! ## Integers -/

/-- The least size of an integer that is rounded past the largest float. The largest float is
`(2 ^ 53 - 1) * 2 ^ 971`, and from half a unit above it on integers are rounded up. -/
def integerBound : Nat := (2 ^ 54 - 1) * 2 ^ 970

theorem one_lt_integerBound : 1 < integerBound := by
  unfold integerBound
  generalize 970 = k
  have hunit : 0 < 2 ^ k := Nat.two_pow_pos k
  omega

theorem roundHalfEven_bounds (num den : Nat) :
    num / den ≤ roundHalfEven num den ∧ roundHalfEven num den ≤ num / den + 1 := by
  unfold roundHalfEven
  dsimp only
  split
  · omega
  · split <;> omega

/-- The bits of a positive integer: its power of two, and its 53 leading binary digits, rounded. -/
theorem nearestBits_eq {n : Nat} (hn : n ≠ 0) :
    ∃ kept, Dyadic.nearestBits n 0 = min (2 ^ 52 * (n.log2 + 1022) + kept) (2047 * 2 ^ 52) ∧
      2 ^ 52 ≤ kept ∧ kept ≤ 2 ^ 53 ∧
      (53 ≤ n.log2 → kept = roundHalfEven n (2 ^ (n.log2 - 52))) := by
  have hlower : 2 ^ n.log2 ≤ n := Nat.log2_self_le hn
  have hupper : n < 2 ^ (n.log2 + 1) := Nat.lt_log2_self
  have hlength : Dyadic.bitLength n = n.log2 + 1 := if_neg hn
  have hleast : max ((0 : Int) + (n.log2 + 1 : Nat) - 53) (-1074) = (n.log2 : Int) - 52 := by omega
  have hpower : ((n.log2 : Int) - 52 + 1074).toNat = n.log2 + 1022 := by omega
  unfold Dyadic.nearestBits
  dsimp only
  rw [hlength, hleast, hpower]
  by_cases hshort : n.log2 ≤ 52
  · have hshift : ((0 : Int) - ((n.log2 : Int) - 52)).toNat = 52 - n.log2 := by omega
    refine ⟨2 ^ (52 - n.log2) * n, ?_, ?_, ?_, fun h => absurd h (by omega)⟩
    · rw [if_pos (by omega), hshift]
      rfl
    · calc 2 ^ 52 = 2 ^ (52 - n.log2) * 2 ^ n.log2 := by rw [← Nat.pow_add]; congr 1; omega
        _ ≤ 2 ^ (52 - n.log2) * n := Nat.mul_le_mul_left _ hlower
    · calc 2 ^ (52 - n.log2) * n ≤ 2 ^ (52 - n.log2) * 2 ^ (n.log2 + 1) :=
            Nat.mul_le_mul_left _ (Nat.le_of_lt hupper)
        _ = 2 ^ 53 := by rw [← Nat.pow_add]; congr 1; omega
  · have hshift : ((n.log2 : Int) - 52 - 0).toNat = n.log2 - 52 := by omega
    have hbounds := roundHalfEven_bounds n (2 ^ (n.log2 - 52))
    have hquotient : 2 ^ 52 ≤ n / 2 ^ (n.log2 - 52) := by
      refine (Nat.le_div_iff_mul_le (Nat.two_pow_pos _)).mpr ?_
      rw [← Nat.pow_add, show 52 + (n.log2 - 52) = n.log2 by omega]
      exact hlower
    have hquotient' : n / 2 ^ (n.log2 - 52) < 2 ^ 53 := by
      refine (Nat.div_lt_iff_lt_mul (Nat.two_pow_pos _)).mpr ?_
      rw [← Nat.pow_add, show 53 + (n.log2 - 52) = n.log2 + 1 by omega]
      exact hupper
    refine ⟨roundHalfEven n (2 ^ (n.log2 - 52)), ?_, by omega, by omega, fun _ => rfl⟩
    rw [if_neg (by omega), hshift]
    rfl

/-- Rounding to 53 digits goes up to the next power of two from half a unit below it on. -/
theorem le_roundHalfEven_iff {n half : Nat} (h : n < 2 ^ 54 * half) :
    2 ^ 53 ≤ roundHalfEven n (2 * half) ↔ (2 ^ 54 - 1) * half ≤ n := by
  have hpos : 0 < 2 * half := by omega
  have hbounds := roundHalfEven_bounds n (2 * half)
  have hsplit := Nat.div_add_mod n (2 * half)
  have hrest : n % (2 * half) < 2 * half := Nat.mod_lt _ hpos
  have hquotient : n / (2 * half) < 2 ^ 53 := (Nat.div_lt_iff_lt_mul hpos).mpr (by omega)
  by_cases hlast : n / (2 * half) = 2 ^ 53 - 1
  · -- The quotient is odd, so a tie goes up as well.
    unfold roundHalfEven
    dsimp only
    rw [hlast] at hsplit ⊢
    split
    · omega
    · split <;> omega
  · have hsize : 2 * half * (n / (2 * half) + 1) ≤ 2 * half * (2 ^ 53 - 1) :=
      Nat.mul_le_mul_left _ (by omega)
    rw [Nat.mul_add] at hsize
    omega

theorem nearestBits_lt_iff {n : Nat} (hn : n ≠ 0) :
    Dyadic.nearestBits n 0 < 2047 * 2 ^ 52 ↔ n < integerBound := by
  obtain ⟨kept, hbits, hlower, hupper, hkept⟩ := nearestBits_eq hn
  have hlog : n < 2 ^ (n.log2 + 1) := Nat.lt_log2_self
  have hlog' : 2 ^ n.log2 ≤ n := Nat.log2_self_le hn
  rw [hbits]
  unfold integerBound
  generalize hk : 970 = k
  have hunit : 0 < 2 ^ k := Nat.two_pow_pos k
  obtain hsmall | hlast | hlarge := Nat.lt_trichotomy n.log2 (53 + k)
  · have hsize : 2 ^ (n.log2 + 1) ≤ 2 ^ (53 + k) := Nat.pow_le_pow_right Nat.two_pos hsmall
    rw [Nat.pow_add 2 53] at hsize
    omega
  · rw [hlast, show 53 + k + 1 = 54 + k by omega, Nat.pow_add] at hlog
    have hround := le_roundHalfEven_iff hlog
    have hunits : 2 ^ (k + 1) = 2 * 2 ^ k := Nat.pow_succ'
    rw [hkept (by omega), hlast, show 53 + k - 52 = k + 1 by omega, hunits]
    omega
  · have hsize : 2 ^ (54 + k) ≤ 2 ^ n.log2 := Nat.pow_le_pow_right Nat.two_pos (by omega)
    rw [Nat.pow_add 2 54] at hsize
    omega

theorem isFinite_nearest {n : Nat} (h : n < integerBound) :
    (Dyadic.nearest n 0).isFinite = true := by
  unfold Dyadic.nearest
  split
  · decide +kernel
  · rename_i hn
    have hlt := (nearestBits_lt_iff hn).mpr h
    refine isFinite_ofBits ?_
    rw [Nat.toUInt64, UInt64.toNat_ofNat', Nat.mod_eq_of_lt (by omega), powerField]
    show _ / 2 ^ 52 % 2 ^ 11 ≠ _
    omega

theorem isInf_nearest {n : Nat} (h : integerBound ≤ n) : (Dyadic.nearest n 0).isInf = true := by
  have hn : n ≠ 0 := by
    have hone := one_lt_integerBound
    omega
  have hbits : Dyadic.nearestBits n 0 = 2047 * 2 ^ 52 := by
    obtain ⟨kept, hmin, -⟩ := nearestBits_eq hn
    have hlt := nearestBits_lt_iff hn
    omega
  rw [Dyadic.nearest, if_neg hn, hbits]
  decide +kernel

/-- An integer has a float unless its size reaches the bound. -/
theorem ofInteger_eq_error_iff {n : Int} {fault : ArithmeticFault} :
    ofInteger n = .error fault ↔ integerBound ≤ n.natAbs ∧ fault = .integerTooLarge := by
  unfold ofInteger
  dsimp only
  by_cases h : integerBound ≤ n.natAbs
  · rw [if_pos (isInf_nearest h)]
    exact ⟨fun he => ⟨h, (Except.error.inj he).symm⟩, fun he => congrArg _ he.2.symm⟩
  · rw [isInf_of_isFinite (isFinite_nearest (by omega))]
    exact iff_of_false nofun (fun he => h he.1)

theorem isFinite_of_ofInteger {n : Int} {v : Float} (h : ofInteger n = .ok v) :
    v.isFinite = true := by
  have hsize : n.natAbs < integerBound := by
    refine Nat.lt_of_not_le fun hlarge => ?_
    rw [ofInteger_eq_error_iff.mpr ⟨hlarge, rfl⟩] at h
    cases h
  have hfinite := isFinite_nearest hsize
  unfold ofInteger at h
  dsimp only at h
  rw [isInf_of_isFinite hfinite] at h
  cases h
  split
  · exact isFinite_neg hfinite
  · exact hfinite

theorem exists_ofInteger {n : Nat} (h : n < integerBound) : ∃ v, ofInteger n = .ok v := by
  cases hv : ofInteger n with
  | ok v => exact ⟨v, rfl⟩
  | error fault =>
    have hlarge : integerBound ≤ n := (ofInteger_eq_error_iff.mp hv).1
    omega

/-! ## Floors -/

theorem ofFloat?_bounds {v : Float} {d : Dyadic} (h : Dyadic.ofFloat? v = some d) :
    d.mantissa < 2 ^ 53 ∧ d.exponent ≤ 971 := by
  unfold Dyadic.ofFloat? at h
  dsimp only at h
  have hfraction : v.toBits.toNat % Nat.pow 2 52 < 2 ^ 52 := Nat.mod_lt _ (Nat.two_pow_pos 52)
  have hpower : v.toBits.toNat / Nat.pow 2 52 % Nat.pow 2 11 < 2 ^ 11 :=
    Nat.mod_lt _ (Nat.two_pow_pos 11)
  split at h
  · cases h
  · split at h
    · cases h
      dsimp only
      omega
    · cases h
      show _ + 2 ^ 52 < _ ∧ (_ : Int) - 1075 ≤ _
      omega

theorem numerator_lt {v : Float} {d : Dyadic} (h : Dyadic.ofFloat? v = some d) :
    d.numerator < integerBound := by
  obtain ⟨hmantissa, hexponent⟩ := ofFloat?_bounds h
  unfold integerBound
  generalize hk : 970 = k
  have hunit : 0 < 2 ^ k := Nat.two_pow_pos k
  calc d.numerator ≤ 2 ^ (k + 1) * (2 ^ 53 - 1) :=
        Nat.mul_le_mul (Nat.pow_le_pow_right Nat.two_pos (by omega)) (by omega)
    _ = 2 * 2 ^ k * (2 ^ 53 - 1) := by rw [Nat.pow_succ']
    _ < (2 ^ 54 - 1) * 2 ^ k := by omega

/-- The floor of a float is below the bound for integers. -/
theorem floorInt_lt {v : Float} {n : Int} (h : floorInt v = .ok n) : n < integerBound := by
  unfold floorInt at h
  split at h
  · rename_i d hd
    cases h
    have hnumerator := numerator_lt hd
    have hden := d.denominator_pos
    have hscale : integerBound ≤ integerBound * d.denominator := Nat.le_mul_of_pos_right _ hden
    unfold Dyadic.floor
    dsimp only
    rw [Int.fdiv_eq_ediv_of_nonneg _ (by omega)]
    refine Int.ediv_lt_of_lt_mul (by omega) ?_
    split <;> omega
  · cases h

end TurtleTrace
