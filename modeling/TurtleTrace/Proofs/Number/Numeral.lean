import Mathlib.Algebra.Group.Nat.Defs
import Mathlib.Data.List.Basic
import TurtleTrace.Number.Fixed
import TurtleTrace.Proofs.Number.Literal

/-!
# The numerals of natural numbers

`Text.ofNat` writes a natural number with the ten digits `0` to `9` and without a zero in front.
-/

namespace TurtleTrace

set_option autoImplicit false

/-- The value of one of the digits `0` to `9`. -/
def asciiValue (c : Char) : Nat := c.toNat - 48

theorem digitValue?_of_isDigit {c : Char} (h : c.isDigit) : digitValue? c = some (asciiValue c) := by
  have hrange : 48 ≤ c.toNat ∧ c.toNat ≤ 57 := Char.isDigit_iff_toNat.mp h
  simp only [digitValue?, asciiValue]
  rw [if_pos (by omega), if_pos (by simp; omega)]

theorem isDigits_of_isDigit {t : Text} (h : ∀ c ∈ t, c.isDigit) : IsDigits t (t.map asciiValue) := by
  rw [IsDigits, List.map_map]
  exact List.map_congr_left fun c hc => digitValue?_of_isDigit (h c hc)

theorem digitsValue_map (t : Text) : digitsValue (t.map asciiValue) = Nat.ofDigitChars 10 t 0 := by
  rw [digitsValue, List.foldl_map]
  rfl

namespace Text

theorem isDigit_ofNat (n : Nat) : ∀ c ∈ ofNat n, c.isDigit := fun _ hc =>
  Nat.isDigit_of_mem_toDigits (by decide) (by decide) hc

theorem ofNat_ne_nil (n : Nat) : ofNat n ≠ [] := Nat.toDigits_ne_nil

theorem digitsValue_ofNat (n : Nat) : digitsValue ((ofNat n).map asciiValue) = n := by
  rw [digitsValue_map]
  exact Nat.ofDigitChars_ten_toDigits

/-- Only zero is written with a zero in front. -/
theorem ofNat_of_head? {n : Nat} (h : (ofNat n).head? = some '0') : ofNat n = ['0'] := by
  unfold ofNat at h ⊢
  induction n using Nat.base_induction 10 (by decide) with
  | single m hm =>
    rw [Nat.toDigits_of_lt_base hm] at h ⊢
    rw [Option.some.inj h]
  | digit m k hk hm ih =>
    rw [← Nat.toDigits_append_toDigits (by decide) hm hk,
      List.head?_append_of_ne_nil _ Nat.toDigits_ne_nil] at h
    have hvalue : Nat.ofDigitChars 10 (Nat.toDigits 10 m) 0 = m := Nat.ofDigitChars_ten_toDigits
    rw [ih h] at hvalue
    exact absurd hvalue (Nat.ne_of_lt hm)

theorem length_ofNat_le_iff {n k : Nat} (hk : 0 < k) : (ofNat n).length ≤ k ↔ n < 10 ^ k :=
  Nat.length_toDigits_le_iff (by decide) hk

end Text

end TurtleTrace
