/-!
# The order of floats

`<` on floats is a strict order: a float is never below itself, and `<` can be chained. A float that is
not a number is below nothing and above nothing. All others have a rank, and `<` compares ranks.
-/

namespace TurtleTrace

set_option autoImplicit false

open Float.Model (UnpackedFloat)

/-- Where a float stands on the line: by its kind, then by exponent, then by mantissa. -/
structure Rank where
  kind : Int
  exponent : Int
  mantissa : Int
  deriving DecidableEq, Repr

namespace Rank

def Below (x y : Rank) : Prop :=
  x.kind < y.kind ∨ x.kind = y.kind ∧
    (x.exponent < y.exponent ∨ x.exponent = y.exponent ∧ x.mantissa < y.mantissa)

theorem Below.irrefl {x : Rank} : ¬ x.Below x := by
  unfold Below
  omega

theorem Below.trans {x y z : Rank} (h : x.Below y) (k : y.Below z) : x.Below z := by
  unfold Below at h k ⊢
  omega

def of? : UnpackedFloat → Option Rank
  | .notANumber => none
  | .infinity .negative => some ⟨-2, 0, 0⟩
  | .finite .negative m e _ => some ⟨-1, -e, -m⟩
  | .zero _ => some ⟨0, 0, 0⟩
  | .finite .positive m e _ => some ⟨1, e, m⟩
  | .infinity .positive => some ⟨2, 0, 0⟩

theorem compare_then_eq_lt {e f : Int} {m n : Nat} :
    (compare e f).then (compare m n) = .lt ↔ e < f ∨ e = f ∧ m < n := by
  rw [Ordering.then_eq_lt, Int.compare_eq_lt, Int.compare_eq_eq, Nat.compare_eq_lt]

theorem compare_then_eq_gt {e f : Int} {m n : Nat} :
    (compare e f).then (compare m n) = .gt ↔ f < e ∨ e = f ∧ n < m := by
  rw [Ordering.then_eq_gt, Int.compare_eq_gt, Int.compare_eq_eq, Nat.compare_eq_gt]

theorem lt_iff (a b : UnpackedFloat) :
    a.lt b = true ↔ ∃ x ∈ of? a, ∃ y ∈ of? b, x.Below y := by
  have hinfinite : compare Float.Model.UnpackedFloat.Sign.negative .positive = .lt := rfl
  -- Only two finite floats of one sign are compared by exponent and mantissa.
  rcases a with (_ | _) | _ | (_ | _) | ⟨_ | _, m, e, hm⟩ <;>
    rcases b with (_ | _) | _ | (_ | _) | ⟨_ | _, n, f, hn⟩ <;>
    dsimp only [UnpackedFloat.lt, UnpackedFloat.compare, of?] <;>
    simp [Below, compare_then_eq_lt, compare_then_eq_gt, hinfinite]

end Rank

theorem float_lt_iff (a b : Float) :
    a < b ↔ ∃ x ∈ Rank.of? a.toModel.unpack, ∃ y ∈ Rank.of? b.toModel.unpack, x.Below y :=
  decide_eq_true_iff.trans (Rank.lt_iff _ _)

theorem float_lt_irrefl (a : Float) : ¬ a < a := by
  intro h
  obtain ⟨x, hx, y, hy, hbelow⟩ := (float_lt_iff a a).mp h
  cases Option.mem_unique hx hy
  exact Rank.Below.irrefl hbelow

theorem float_lt_trans {a b c : Float} (h : a < b) (k : b < c) : a < c := by
  obtain ⟨x, hx, y, hy, hxy⟩ := (float_lt_iff a b).mp h
  obtain ⟨y', hy', z, hz, hyz⟩ := (float_lt_iff b c).mp k
  cases Option.mem_unique hy hy'
  exact (float_lt_iff a c).mpr ⟨x, hx, z, hz, hxy.trans hyz⟩

end TurtleTrace
