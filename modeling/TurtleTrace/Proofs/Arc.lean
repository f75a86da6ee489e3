import TurtleTrace.Arc
import TurtleTrace.Proofs.Number.Whole

/-!
# When an arc has no vertices

The vertices of an arc with a finite angle exist unless the resolution has no float, the number of
steps is infinite, or the angle of some vertex is. No other fault can arise, because the number of
steps is the floor of a float and so has a float itself.
-/

namespace TurtleTrace

set_option autoImplicit false

/-- Why an arc has no vertices. -/
inductive ArcFault (heading angle : Float) (resolution : Int) : ArithmeticFault → Prop where
  | resolution (large : integerBound ≤ resolution.natAbs) :
      ArcFault heading angle resolution .integerTooLarge
  | steps {full : Float} (float : ofInteger resolution = .ok full)
      (infinite : (angle.abs / 360 * full + 0.5).isInf = true) :
      ArcFault heading angle resolution .infiniteToInteger
  | vertex {steps index : Nat} {divisor turned : Float} (count : arcSteps angle resolution = .ok steps)
      (divide : ofInteger steps = .ok divisor) (within : index ≤ steps)
      (turn : ofInteger index = .ok turned)
      (infinite : (radians heading + radians angle / divisor * turned).isInf = true) :
      ArcFault heading angle resolution .infiniteAngle

theorem one_le_arcSteps {angle : Float} {resolution : Int} {steps : Nat}
    (h : arcSteps angle resolution = .ok steps) : 1 ≤ steps := by
  unfold arcSteps at h
  cases hf : ofInteger resolution with
  | error fault => rw [hf] at h; cases h
  | ok full =>
    rw [hf] at h
    cases hr : roundHalfUp (angle.abs / 360 * full) with
    | error fault => simp only [bind, Except.bind, hr] at h; cases h
    | ok n =>
      simp only [bind, Except.bind, hr, pure, Except.pure, Except.ok.injEq] at h
      omega

/-- An arc has one more vertex than steps. -/
theorem size_arcVertices {centre : Point} {heading angle radius : Float} {resolution : Int}
    {vertices : Array Point}
    (h : arcVertices centre heading angle radius resolution = .ok vertices) :
    ∃ steps, arcSteps angle resolution = .ok steps ∧ vertices.size = steps + 1 := by
  unfold arcVertices at h
  cases hs : arcSteps angle resolution with
  | error fault => rw [hs] at h; cases h
  | ok steps =>
    rw [hs] at h
    cases hd : ofInteger steps with
    | error fault => simp only [bind, Except.bind, hd] at h; cases h
    | ok divisor =>
      simp only [bind, Except.bind, hd] at h
      have hsize := size_verticesFrom h
      rw [Array.size_empty] at hsize
      exact ⟨steps, rfl, by omega⟩

/-- An arc has at least two vertices. -/
theorem two_le_size_arcVertices {centre : Point} {heading angle radius : Float} {resolution : Int}
    {vertices : Array Point}
    (h : arcVertices centre heading angle radius resolution = .ok vertices) : 2 ≤ vertices.size := by
  obtain ⟨steps, hsteps, hsize⟩ := size_arcVertices h
  have hpos := one_le_arcSteps hsteps
  omega

theorem bind_eq_error_iff {α β : Type} {x : Except ArithmeticFault α}
    {next : α → Except ArithmeticFault β} {fault : ArithmeticFault} :
    x >>= next = .error fault ↔
      x = .error fault ∨ ∃ a, x = .ok a ∧ next a = .error fault := by
  cases x with
  | error fault' =>
    refine ⟨fun h => .inl ?_, ?_⟩
    · cases h
      rfl
    · rintro (h | ⟨a, h, -⟩)
      · cases h
        rfl
      · cases h
  | ok a =>
    refine ⟨fun h => .inr ⟨a, rfl, h⟩, ?_⟩
    rintro (h | ⟨b, h, hb⟩)
    · cases h
    · cases h
      exact hb

section VerticesFrom

variable {vertex : Nat → Except ArithmeticFault Point} {count index : Nat} {found : Array Point}
  {fault : ArithmeticFault}

theorem exists_of_verticesFrom (h : verticesFrom vertex count index found = .error fault) :
    ∃ i < index + count, vertex i = .error fault := by
  induction count generalizing index found with
  | zero => cases h
  | succ count ih =>
    unfold verticesFrom at h
    split at h
    · rename_i fault' hvertex
      cases h
      exact ⟨index, by omega, hvertex⟩
    · obtain ⟨i, hi, hvertex⟩ := ih h
      exact ⟨i, by omega, hvertex⟩

theorem verticesFrom_of_error
    (hall : ∀ i fault', i < index + count → vertex i = .error fault' → fault' = fault)
    {i : Nat} (hindex : index ≤ i) (hi : i < index + count) (hvertex : vertex i = .error fault) :
    verticesFrom vertex count index found = .error fault := by
  induction count generalizing index found with
  | zero => omega
  | succ count ih =>
    unfold verticesFrom
    split
    · rename_i fault' hfault
      rw [hall index fault' (by omega) hfault]
    · rename_i p hp
      have hne : index ≠ i := by
        intro heq
        rw [heq, hvertex] at hp
        cases hp
      exact ih (fun j fault' hj => hall j fault' (by omega)) (by omega) (by omega)

end VerticesFrom

variable {heading angle radius : Float} {resolution : Int} {centre : Point} {fault : ArithmeticFault}

/-- The number of steps of an arc with a finite angle is never NaN. -/
theorem roundHalfUp_steps_eq_error_iff (hangle : angle.isFinite = true) {full : Float}
    (hfull : full.isFinite = true) :
    roundHalfUp (angle.abs / 360 * full) = .error fault ↔
      (angle.abs / 360 * full + 0.5).isInf = true ∧ fault = .infiniteToInteger := by
  have hhalf : Float.isFinite 0.5 = true := by decide +kernel
  have hnan : (angle.abs / 360 * full + 0.5).isNaN = false :=
    isNaN_add (isNaN_mul (isFinite_div_360 (isFinite_abs hangle)) hfull) hhalf
  rw [roundHalfUp, floorInt_eq_error_iff, hnan, isFinite_eq_not_isInf hnan]
  simp

theorem arcSteps_eq_error_iff (hangle : angle.isFinite = true) :
    arcSteps angle resolution = .error fault ↔
      (integerBound ≤ resolution.natAbs ∧ fault = .integerTooLarge) ∨
      ∃ full, ofInteger resolution = .ok full ∧
        (angle.abs / 360 * full + 0.5).isInf = true ∧ fault = .infiniteToInteger := by
  unfold arcSteps
  rw [bind_eq_error_iff, ofInteger_eq_error_iff]
  refine or_congr_right (exists_congr fun full => and_congr_right fun hfull => ?_)
  rw [bind_eq_error_iff, roundHalfUp_steps_eq_error_iff hangle (isFinite_of_ofInteger hfull)]
  exact or_iff_left fun ⟨_, _, h⟩ => nomatch h

theorem arcSteps_lt {steps : Nat} (h : arcSteps angle resolution = .ok steps) :
    steps < integerBound := by
  have hone := one_lt_integerBound
  unfold arcSteps at h
  cases hfull : ofInteger resolution with
  | error fault =>
    rw [hfull] at h
    cases h
  | ok full =>
    rw [hfull] at h
    cases hsteps : roundHalfUp (angle.abs / 360 * full) with
    | error fault =>
      simp only [bind, Except.bind, hsteps] at h
      cases h
    | ok n =>
      have hn := floorInt_lt hsteps
      simp only [bind, Except.bind, hsteps] at h
      cases h
      omega

theorem direction_eq_error_iff {turned : Float} :
    direction turned = .error fault ↔ turned.isInf = true ∧ fault = .infiniteAngle := by
  unfold direction
  split
  · rename_i h
    exact ⟨fun he => ⟨h, (Except.error.inj he).symm⟩, fun he => congrArg _ he.2.symm⟩
  · rename_i h
    exact iff_of_false nofun (fun he => h he.1)

theorem arcVertex_eq_error_iff {start step : Float} {index : Nat} (hindex : index < integerBound) :
    arcVertex centre start step radius index = .error fault ↔
      ∃ turned, ofInteger index = .ok turned ∧ (start + step * turned).isInf = true ∧
        fault = .infiniteAngle := by
  obtain ⟨turned, hturned⟩ := exists_ofInteger hindex
  unfold arcVertex
  rw [bind_eq_error_iff, hturned]
  refine (or_iff_right nofun).trans (exists_congr fun turned => and_congr_right fun _ => ?_)
  rw [bind_eq_error_iff, direction_eq_error_iff]
  exact or_iff_left fun ⟨_, _, h⟩ => nomatch h

theorem arcVertices_eq_error_iff (hangle : angle.isFinite = true) :
    arcVertices centre heading angle radius resolution = .error fault ↔
      ArcFault heading angle resolution fault := by
  unfold arcVertices
  rw [bind_eq_error_iff, arcSteps_eq_error_iff hangle]
  constructor
  · rintro ((⟨hlarge, rfl⟩ | ⟨full, hfull, hinf, rfl⟩) | ⟨steps, hsteps, h⟩)
    · exact .resolution hlarge
    · exact .steps hfull hinf
    · have hlt := arcSteps_lt hsteps
      obtain ⟨divisor, hdivisor⟩ := exists_ofInteger hlt
      rw [hdivisor] at h
      obtain ⟨index, hindex, hvertex⟩ := exists_of_verticesFrom h
      obtain ⟨turned, hturned, hinf, rfl⟩ := (arcVertex_eq_error_iff (by omega)).mp hvertex
      exact .vertex hsteps hdivisor (by omega) hturned hinf
  · intro h
    cases h with
    | resolution hlarge => exact .inl (.inl ⟨hlarge, rfl⟩)
    | steps hfull hinf => exact .inl (.inr ⟨_, hfull, hinf, rfl⟩)
    | @vertex steps index divisor turned hsteps hdivisor hindex hturned hinf =>
      have hlt := arcSteps_lt hsteps
      refine .inr ⟨steps, hsteps, ?_⟩
      rw [hdivisor]
      -- The first vertex that fails may come earlier, but for the same reason.
      refine verticesFrom_of_error (fun i fault' hi hfault => ?_) (Nat.zero_le index) (by omega)
        ((arcVertex_eq_error_iff (by omega)).mpr ⟨turned, hturned, hinf, rfl⟩)
      obtain ⟨-, -, -, rfl⟩ := (arcVertex_eq_error_iff (by omega)).mp hfault
      rfl

end TurtleTrace
