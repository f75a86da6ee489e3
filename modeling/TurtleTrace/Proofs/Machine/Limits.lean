import TurtleTrace.Proofs.Machine.CallStack
import TurtleTrace.Proofs.Machine.Journal

/-!
# The limits of a run

The limits on started commands and on open frames only stop runs. A run that neither of them stops is
the same under wider ones (`agree_runCommand`), and a run that comes to its end has started as many
commands as it has counted, and no more than allowed (`Path.steps_eq`, `Path.steps_le`).
-/

namespace TurtleTrace

set_option autoImplicit false

/-- Whether a run was stopped by the limit on started commands or by the one on open frames. -/
def Failure.isLimit : Failure → Bool
  | script (.tooManySteps _) _ | script (.tooDeep _) _ => true
  | _ => false

/-! ## Wider limits -/

section Wider

variable {limits wide : Limits}

theorem agree_startCommand (hs : limits.steps ≤ wide.steps) (command : Command) (m : Machine) :
    Step.Agree Failure.isLimit (fun _ => false) Eq (startCommand limits command m)
      (startCommand wide command m) := by
  unfold startCommand
  by_cases hstop : limits.steps < (m.begin command.line).steps
  · rw [if_pos hstop]
    exact .left rfl _ _
  · have hwide : ¬ wide.steps < (m.begin command.line).steps := by omega
    rw [if_neg hstop, if_neg hwide]
    exact .refl _

/-- A command that no limit stops runs in the same way under wider limits. -/
theorem agree_runCommand (hd : limits.callDepth ≤ wide.callDepth) (hs : limits.steps ≤ wide.steps)
    (room depth : Nat) (command : Command) (m : Machine) :
    Outcome.Agree Failure.isLimit (fun _ => false) Eq (runCommand limits room depth command m)
      (runCommand wide room depth command m) := by
  have hstart := agree_startCommand hs command m
  generalize hnarrow : startCommand limits command m = s at hstart
  generalize hwider : startCommand wide command m = s' at hstart
  cases hstart with
  | done h =>
    rw [runCommand_of_done hnarrow, runCommand_of_done hwider]
    exact .done h
  | failed failure h =>
    rw [runCommand_of_failed hnarrow, runCommand_of_failed hwider]
    exact .failed failure h
  | left h n =>
    rw [runCommand_of_failed hnarrow]
    exact .left h n _
  | right h => cases h
  | @enter n _ frame body h =>
    subst h
    by_cases hdeep : limits.callDepth ≤ depth
    · rw [runCommand_of_tooDeep hnarrow hdeep]
      exact .left rfl _ _
    · have hdeeper : ¬ wide.callDepth ≤ depth := by omega
      cases room with
      | zero =>
        rw [runCommand_of_noRoom hnarrow hdeep, runCommand_of_noRoom hwider hdeeper]
        exact .failed _ rfl
      | succ room =>
        rw [runCommand_of_enter hnarrow hdeep, runCommand_of_enter hwider hdeeper]
        refine .replay (fun k k' hk => .runAll (fun c _ k k' hk => ?_) hk) _ rfl
        subst hk
        exact agree_runCommand hd hs room (depth + 1) c k

end Wider

/-! ## Counting commands -/

variable {limits : Limits} {m m' : Machine}

namespace Machine

variable {line : Int}

/-- What a command does does not count as a command. -/
theorem Change.steps_eq {action : Action} (h : m.Change line action m') : m'.steps = m.steps := by
  cases h with
  | penUp => exact (frame_penUp ..).2.2
  | penDown => exact (frame_penDown ..).2.2
  | note | marker => exact (frame_placeNote ..).2.2
  | skip | bind | steer | move | home | flatArc | arc => rfl

end Machine

theorem Advance.steps_eq {v : Visit} (h : Advance limits v m') :
    m'.steps = v.before.steps + 1 := by
  obtain hc | ⟨-, -, trace, rfl⟩ := h.cases
  · exact hc.steps_eq
  · rfl

/-- A command that leads on was allowed to start. -/
theorem Advance.steps_le {v : Visit} (h : Advance limits v m') : (m'.steps : Int) ≤ limits.steps := by
  have hcount := h.steps_eq
  by_cases hstop : limits.steps < (v.before.begin v.command.line).steps
  · have hfailed := startCommand_of_stop hstop
    cases h with
    | done h =>
      rw [hfailed] at h
      cases h
    | enter depth h =>
      rw [hfailed] at h
      cases h
  · have hbegin : (v.before.begin v.command.line).steps = v.before.steps + 1 := rfl
    omega

theorem Path.steps_eq {visits : List Visit} (h : Path limits m visits m') :
    m'.steps = m.steps + visits.length := by
  induction h with
  | nil m => rfl
  | cons first _ ih =>
    have hfirst := first.steps_eq
    rw [List.length_cons]
    omega

theorem Path.steps_le {visits : List Visit} (h : Path limits m visits m')
    (hm : (m.steps : Int) ≤ max 0 limits.steps) : (m'.steps : Int) ≤ max 0 limits.steps := by
  refine h.preserves (P := fun m => (m.steps : Int) ≤ max 0 limits.steps) (fun v n hv _ => ?_) hm
  have hle := hv.steps_le
  omega

/-! ## The limits only limit -/

theorem Outcome.failsBy_never (o : Outcome) : o.failsBy (fun _ => false) = false := by
  cases o with
  | done m => rfl
  | failed failure m => rfl

/-- The end of a run never fails. -/
theorem execute_failsBy {ways : Failure → Bool} {resolution : Int} {commands : List Command}
    {comments : List Comment} :
    (execute limits resolution commands comments).failsBy ways =
      (runCommands limits commands (.start resolution comments)).failsBy ways := by
  unfold execute
  cases runCommands limits commands (.start resolution comments) with
  | done n => rfl
  | failed failure n => rfl

/-- A run that none of the two limits stops is the same under wider limits. At every point of a run,
whether it fails or not, the open frames are within the limit, and the points lead to the outcome. A
run that comes to its end has started as many commands as it counts, within the limit. -/
theorem execute_eq_of_wider_limits (limits : Limits) (callDepth steps resolution : Int)
    (commands : List Command) (comments : List Comment) :
    let start := Machine.start resolution comments
    (limits.callDepth ≤ callDepth → limits.steps ≤ steps →
      (execute limits resolution commands comments).failsBy Failure.isLimit = false →
      execute { limits with callDepth, steps } resolution commands comments =
        execute limits resolution commands comments) ∧
    (∀ c, Leads limits (.inl ⟨start, commands, []⟩) (.inl c) →
      (c.stack.length : Int) ≤ max 0 limits.callDepth) ∧
    Leads limits (.inl ⟨start, commands, []⟩) (.inr (runCommands limits commands start)) ∧
    ∀ m, execute limits resolution commands comments = .done m →
      (journal limits commands start).length = m.steps ∧ (m.steps : Int) ≤ max 0 limits.steps := by
  intro start
  refine ⟨fun hd hs hspared => ?_, fun c hc => length_stack_le hc,
    leads_runCommands limits commands start, fun m h => ?_⟩
  · have hagree : Outcome.Agree Failure.isLimit (fun _ => false) Eq
        (runCommands limits commands start)
        (runCommands { limits with callDepth, steps } commands start) := by
      refine .runAll (fun c _ k k' hk => ?_) rfl
      subst hk
      exact agree_runCommand hd hs limits.nesting 0 c k
    have heq := (hagree.spare (execute_failsBy ▸ hspared) (Outcome.failsBy_never _)).eq
    rw [execute, ← heq, execute]
  · obtain ⟨n, hrun, rfl⟩ := execute_eq_done h
    have hpath := path_of_runCommands hrun
    have hcount := hpath.steps_eq
    refine ⟨?_, hpath.steps_le (Int.le_max_left 0 _)⟩
    show _ = n.steps
    rw [hcount]
    exact (Nat.zero_add _).symm

/-- A call inside a loop under the narrowest limits that let it end. -/
theorem wider_limits_of_nested_call :
    let limits : Limits := { callDepth := 2, steps := 6 }
    let commands := (parse 1 "MAKE \"a [HOME]\nREPEAT 2 [:a]".toList).commands
    let start := Machine.start 40 []
    (execute limits 40 commands []).isDone = true ∧
      execute { limits with callDepth := 9, steps := 100 } 40 commands [] =
        execute limits 40 commands [] ∧
      (∃ c, Leads limits (.inl ⟨start, commands, []⟩) (.inl c) ∧
        (c.stack.length : Int) ≤ max 0 limits.callDepth) ∧
      ∃ m, execute limits 40 commands [] = .done m ∧
        (journal limits commands start).length = m.steps ∧ (m.steps : Int) ≤ max 0 limits.steps := by
  intro limits commands start
  have hdone : (execute limits 40 commands []).isDone = true := by decide +kernel
  obtain ⟨hwider, hpoints, -, hcount⟩ := execute_eq_of_wider_limits limits 9 100 40 commands []
  obtain ⟨m, hm⟩ := Outcome.exists_of_isDone hdone
  have hstart : Leads limits (.inl ⟨start, commands, []⟩) (.inl ⟨start, commands, []⟩) := .refl _
  exact ⟨hdone, hwider (by decide) (by decide) (by decide +kernel), ⟨_, hstart, hpoints _ hstart⟩,
    m, hm, hcount m hm⟩

end TurtleTrace
