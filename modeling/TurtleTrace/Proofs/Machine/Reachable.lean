import TurtleTrace.Proofs.Machine.Breakdown
import TurtleTrace.Proofs.Machine.CallStack

/-!
# Invariants at every point of a run

A step between two points of a run starts a command or leaves the machine alone. So what every command
preserves holds at every point that a run passes through, whether it comes to its end or fails later
(`Leads.preserves`), and it may speak of the commands that were started on the way there (`Tour`). A run
takes its steps in one way only: from each point that it passes through, the steps lead on to its outcome
(`Leads.onward`).
-/

namespace TurtleTrace

set_option autoImplicit false

/-- An action that fails has changed nothing but the trace. -/
theorem Machine.trace_of_act_failed {m m' : Machine} {line : Int} {action : Action}
    {failure : Failure} (h : m.act action line = .failed failure m') :
    ∃ trace, m' = { m with trace := trace } := by
  cases breakdown_of_act h with
  | script | arithmetic | loop | list => exact ⟨_, rfl⟩

variable {limits : Limits} {c c' : Configuration}

/-- The command that is to start at a point of a run, if one is. -/
def Configuration.visit? (c : Configuration) : Option Visit :=
  c.commands.head?.map (⟨·, c.machine⟩)

/-- A step from one point to another starts the command that is to start, or there is none and the
machine is left alone. -/
theorem Configuration.visit_of_next (h : c.next limits = .inl c') :
    c.visit? = none ∧ c'.machine = c.machine ∨
      ∃ v, c.visit? = some v ∧ Advance limits v c'.machine := by
  unfold next at h
  split at h
  · rename_i command rest hcommands
    have hvisit : c.visit? = some ⟨command, c.machine⟩ := by
      rw [visit?, hcommands]
      rfl
    split at h
    · rename_i m hs
      cases h
      exact .inr ⟨_, hvisit, .done hs⟩
    · cases h
    · rename_i frame body m hs
      unfold enter at h
      split at h
      · cases h
      · split at h
        · cases h
        · cases h
          exact .inr ⟨_, hvisit, .enter _ hs⟩
  · cases h
  · rename_i hcommands _
    cases h
    refine .inl ⟨?_, rfl⟩
    rw [visit?, hcommands]
    rfl
  · rename_i hcommands _
    cases h
    refine .inl ⟨?_, rfl⟩
    rw [visit?, hcommands]
    rfl

/-- A step from one point to another leaves the machine alone or starts the next command. -/
theorem Configuration.advance_of_next (h : c.next limits = .inl c') :
    c'.machine = c.machine ∨
      ∃ command rest, c.commands = command :: rest ∧
        Advance limits ⟨command, c.machine⟩ c'.machine := by
  obtain ⟨-, hsame⟩ | ⟨v, hvisit, hadvance⟩ := visit_of_next h
  · exact .inl hsame
  · obtain ⟨command, hhead, rfl⟩ := Option.map_eq_some_iff.mp hvisit
    obtain ⟨rest, hcommands⟩ := List.head?_eq_some_iff.mp hhead
    exact .inr ⟨command, rest, hcommands, hadvance⟩

/-- A run comes to its end in the state of its last point. Or it fails with the next command, in the
state in which the command was counted, or in which its action was to be carried out with no more than
the trace changed. -/
theorem Configuration.outcome_of_next {o : Outcome} (h : c.next limits = .inr o) :
    o = .done c.machine ∨ ∃ command rest failure m, c.commands = command :: rest ∧
      o = .failed failure m ∧ (m = c.machine.begin command.line ∨
        ∃ trace, m = { Visit.ready ⟨command, c.machine⟩ with trace := trace }) := by
  unfold next at h
  split at h
  · rename_i command rest hcommands
    refine .inr ⟨command, rest, ?_⟩
    by_cases hstop : limits.steps < (c.machine.begin command.line).steps
    · rw [startCommand_of_stop hstop] at h
      cases h
      exact ⟨_, _, hcommands, rfl, .inl rfl⟩
    · rw [startCommand_of_go hstop] at h
      split at h
      · cases h
      · rename_i failure m hact
        cases h
        exact ⟨failure, m, hcommands, rfl, .inr (Machine.trace_of_act_failed hact)⟩
      · rename_i frame body m hact
        obtain ⟨-, -, event, rfl⟩ := Machine.trace_of_act hact
        unfold enter at h
        split at h
        · cases h
          exact ⟨_, _, hcommands, rfl, .inr ⟨_, rfl⟩⟩
        · split at h
          · cases h
            exact ⟨_, _, hcommands, rfl, .inr ⟨_, rfl⟩⟩
          · cases h
  · cases h
    exact .inl rfl
  · cases h
  · cases h

/-! ## Induction along a run -/

/-- What holds at one point of a run, and is passed on by every step after it, holds at all later
points. -/
theorem Leads.invariant {P : Configuration → Prop} (h : Leads limits (.inl c) (.inl c')) (hc : P c)
    (step : ∀ a b, Leads limits (.inl c) (.inl a) → a.next limits = .inl b → P a → P b) : P c' := by
  have hall : ∀ s, Leads limits (.inl c) s → ∀ b, s = .inl b → P b := by
    intro s hs
    induction hs with
    | refl =>
      rintro b ⟨⟩
      exact hc
    | tail hbefore hstep ih =>
      obtain ⟨a, rfl, hnext⟩ := hstep
      rintro b rfl
      exact step a b hbefore hnext (ih a rfl)
  exact hall _ h c' rfl

/-- What every command preserves holds at all later points of a run. -/
theorem Leads.preserves {P : Machine → Prop} (h : Leads limits (.inl c) (.inl c'))
    (step : ∀ v m, Advance limits v m → P v.before → P m) (hc : P c.machine) : P c'.machine := by
  refine h.invariant (P := fun b => P b.machine) hc fun a b _ hnext ha => ?_
  obtain hsame | ⟨command, rest, -, hadvance⟩ := Configuration.advance_of_next hnext
  · rw [hsame]
    exact ha
  · exact step _ _ hadvance ha

/-- Steps that lead from one point of a run to another, with the commands that they start. -/
inductive Tour (limits : Limits) (c : Configuration) : List Visit → Configuration → Prop where
  | refl : Tour limits c [] c
  | step {visits : List Visit} {a b : Configuration} (before : Tour limits c visits a)
      (next : a.next limits = .inl b) : Tour limits c (visits ++ a.visit?.toList) b

theorem Leads.exists_tour (h : Leads limits (.inl c) (.inl c')) :
    ∃ visits, Tour limits c visits c' := by
  refine h.invariant (P := fun b => ∃ visits, Tour limits c visits b) ⟨[], .refl⟩ ?_
  rintro a b - hnext ⟨visits, htour⟩
  exact ⟨_, htour.step hnext⟩

/-- What every started command passes on holds after a tour, of the commands started so far. -/
theorem Tour.preserves {P : List Visit → Machine → Prop} {visits : List Visit}
    (h : Tour limits c visits c')
    (step : ∀ before v m, Advance limits v m → P before v.before → P (before ++ [v]) m)
    (hc : P [] c.machine) : P visits c'.machine := by
  induction h with
  | refl => exact hc
  | @step before a b _ hnext ih =>
    obtain ⟨hnone, hsame⟩ | ⟨v, hvisit, hadvance⟩ := Configuration.visit_of_next hnext
    · rw [hnone, Option.toList_none, List.append_nil, hsame]
      exact ih
    · obtain ⟨command, -, rfl⟩ := Option.map_eq_some_iff.mp hvisit
      rw [hvisit]
      exact step before _ _ hadvance ih

/-! ## The end of a run -/

/-- A run reaches its outcome in one step from a last point. -/
theorem Leads.last {o : Outcome} (h : Leads limits (.inl c) (.inr o)) :
    ∃ c', Leads limits (.inl c) (.inl c') ∧ c'.next limits = .inr o := by
  obtain heq | ⟨s, hbefore, c', rfl, hnext⟩ := Relation.ReflTransGen.cases_tail h
  · cases heq
  · exact ⟨c', hbefore, hnext⟩

/-- Every point that a run passes through leads on to its outcome. -/
theorem Leads.onward {o : Outcome} (h : Leads limits (.inl c) (.inl c'))
    (hend : Leads limits (.inl c) (.inr o)) : Leads limits (.inl c') (.inr o) := by
  have hunique : Relator.RightUnique fun s s' : Stand =>
      ∃ c : Configuration, s = .inl c ∧ c.next limits = s' := by
    rintro s s₁ s₂ ⟨a, rfl, h₁⟩ ⟨b, hb, h₂⟩
    cases hb
    rw [← h₁, ← h₂]
  obtain hon | hback := Relation.ReflTransGen.total_of_right_unique hunique h hend
  · exact hon
  · -- Nothing follows an outcome.
    obtain heq | ⟨s, ⟨a, ha, -⟩, -⟩ := Relation.ReflTransGen.cases_head hback
    · cases heq
    · cases ha

end TurtleTrace
