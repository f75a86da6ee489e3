import TurtleTrace.Proofs.Machine.Journal

/-!
# Resolution and variables

Two numbers of a run are kept within bounds at all times: the resolution of arcs is at least one, and
every variable that holds a number holds a finite one. A command that would break either of them fails
instead.
-/

namespace TurtleTrace

set_option autoImplicit false

theorem Bindings.mem_put {key : Text} {value : Value} {entry : Text × Value}
    {entries : List (Text × Value)} (h : entry ∈ put key value entries) :
    entry = (key, value) ∨ entry ∈ entries := by
  induction entries with
  | nil => exact .inl (List.mem_singleton.mp h)
  | cons first rest ih =>
    obtain ⟨k, v⟩ := first
    unfold put at h
    split at h
    · rename_i hk
      obtain rfl | h := List.mem_cons.mp h
      · exact .inl (by rw [hk])
      · exact .inr (List.mem_cons_of_mem _ h)
    · obtain rfl | h := List.mem_cons.mp h
      · exact .inr List.mem_cons_self
      · exact (ih h).imp_right (List.mem_cons_of_mem _)

namespace Machine

/-- The resolution of arcs is at least one, and all numbers that variables hold are finite. -/
structure Regular (m : Machine) : Prop where
  resolution : 1 ≤ m.turtle.resolution
  numbers : ∀ name v, (name, Value.number v) ∈ m.bindings.entries → v.isFinite = true

theorem regular_start {resolution : Int} (h : 1 ≤ resolution) (comments : List Comment) :
    (start resolution comments).Regular :=
  ⟨h, nofun⟩

variable {m m' : Machine} {line : Int} {action : Action}

theorem Regular.of_eq (h : m.Regular) (hresolution : m'.turtle.resolution = m.turtle.resolution)
    (hbindings : m'.bindings = m.bindings) : m'.Regular := by
  refine ⟨hresolution ▸ h.resolution, ?_⟩
  rw [hbindings]
  exact h.numbers

theorem Regular.bind (h : m.Regular) (name : Text) {value : Value}
    (hvalue : ∀ v, value = .number v → v.isFinite = true) : (m.bind name value).Regular := by
  refine ⟨h.resolution, fun other v hv => ?_⟩
  obtain hnew | hold := Bindings.mem_put hv
  · cases hnew
    exact hvalue v rfl
  · exact h.numbers other v hold

theorem Regular.setResolution {value : Float} (h : m.Regular)
    (hset : m.setResolution value line = .done m') : m'.Regular := by
  obtain ⟨resolution, -, hr⟩ := withResult_eq (by simp) hset
  split at hr
  · cases hr
  · rename_i hlow
    cases hr
    exact ⟨Int.not_lt.mp hlow, h.numbers⟩

theorem Regular.penUp (h : m.Regular) (line : Int) : (m.penUp line).Regular := by
  obtain ⟨hturtle, hbindings, -⟩ := m.frame_penUp line
  refine h.of_eq ?_ hbindings
  rw [hturtle]
  split <;> rfl

theorem Regular.penDown (h : m.Regular) (line : Int) : (m.penDown line).Regular := by
  obtain ⟨hturtle, hbindings, -⟩ := m.frame_penDown line
  refine h.of_eq ?_ hbindings
  rw [hturtle]
  split <;> rfl

theorem Regular.placeNote (h : m.Regular) (text : Text) (line : Int) :
    (m.placeNote text line).Regular := by
  obtain ⟨hturtle, hbindings, -⟩ := m.frame_placeNote line text
  exact h.of_eq (by rw [hturtle]) hbindings

theorem Regular.addMarker (h : m.Regular) (label : Option Text) (p : Point) (line : Int) :
    (m.addMarker label p line).Regular := by
  have hmarked : (m.onCanvas (·.onDrawing (·.addMarker p label))).Regular := h.of_eq rfl rfl
  exact hmarked.placeNote _ line

/-- An action that is done with at once keeps the numbers within bounds. -/
theorem Regular.act (hm : m.Regular) (h : m.act action line = .done m') : m'.Regular := by
  have hs : ∀ failure n, Step.done m' ≠ .failed failure n := fun _ _ => nofun
  cases action with
  | forward e | back e =>
    obtain ⟨v, -, hv⟩ := withValue_eq hs h
    obtain ⟨p, -, hp⟩ := withResult_eq hs hv
    cases hp
    exact hm.of_eq rfl rfl
  | left e | right e | setHeading e | setX e | setY e =>
    obtain ⟨v, -, hv⟩ := withValue_eq hs h
    cases hv
    exact hm.of_eq rfl rfl
  | setXY e f =>
    obtain ⟨x, -, hx⟩ := withValue_eq hs h
    obtain ⟨y, -, hy⟩ := withValue_eq hs hx
    cases hy
    exact hm.of_eq rfl rfl
  | home =>
    cases h
    exact hm.of_eq rfl rfl
  | penUp =>
    cases h
    exact hm.penUp line
  | penDown =>
    cases h
    exact hm.penDown line
  | arc e f =>
    obtain ⟨angle, -, ha⟩ := withValue_eq hs h
    obtain ⟨radius, -, hr⟩ := withValue_eq hs ha
    unfold arc at hr
    split at hr
    · cases hr
      exact hm
    · obtain ⟨vertices, -, hv⟩ := withResult_eq hs hr
      cases hv
      exact hm.of_eq rfl rfl
  | makeNumber name e =>
    obtain ⟨v, hv, hn⟩ := withValue_eq hs h
    cases hn
    refine hm.bind name ?_
    rintro _ ⟨⟩
    exact Expr.isFinite_of_evaluate hv
  | makeList name body =>
    cases h
    exact hm.bind name nofun
  | repeatBody count body bodyLine =>
    obtain hd | ⟨n, -, hn⟩ := withCount_eq hs h
    · cases hd
      exact hm
    · obtain ⟨-, hb⟩ := withBody_eq hs hn
      cases hb
  | repeatNamed count name =>
    obtain hd | ⟨n, -, hn⟩ := withCount_eq hs h
    · cases hd
      exact hm
    · obtain ⟨text, -, -, hb⟩ := withStored_eq hs hn
      cases hb
  | call name =>
    obtain ⟨text, -, -, hb⟩ := withStored_eq hs h
    cases hb
  | print items =>
    simp only [Machine.act, print] at h
    split at h
    · cases h
    · cases h
      exact hm.placeNote _ line
  | setResolution e =>
    obtain ⟨v, -, hv⟩ := withValue_eq hs h
    exact hm.setResolution hv
  | notePosition label =>
    cases h
    exact hm.placeNote _ line
  | marker label place =>
    cases place with
    | none =>
      cases h
      exact hm.addMarker label _ line
    | some place =>
      obtain ⟨x, -, hx⟩ := withValue_eq hs h
      obtain ⟨y, -, hy⟩ := withValue_eq hs hx
      cases hy
      exact hm.addMarker label _ line

end Machine

variable {limits : Limits} {v : Visit} {m : Machine}

theorem Advance.regular (h : Advance limits v m) (hv : v.before.Regular) : m.Regular := by
  have hready : v.ready.Regular := hv.of_eq rfl rfl
  cases h with
  | done h => exact hready.act (Visit.act_ready h fun _ _ => nofun)
  | enter depth h =>
    obtain ⟨-, -, event, rfl⟩ := Machine.trace_of_act (Visit.act_ready h fun _ _ => nofun)
    exact hready.of_eq rfl rfl

end TurtleTrace
