import TurtleTrace.Proofs.Machine.Breakdown
import TurtleTrace.Session

/-!
# Faults of arithmetic

A script is stopped by a fault of arithmetic if and only if it starts a forward or backward move at a
heading that is infinite in radians, or an arc whose resolution, number of steps or vertex angles
leave the finite floats. Values of expressions are checked, but a heading is a sum of many of them.
-/

namespace TurtleTrace

set_option autoImplicit false

theorem startCommand_eq_arithmetic_iff {limits : Limits} {v : Visit} {fault : ArithmeticFault}
    {m : Machine} :
    startCommand limits v.command v.before = .failed (.arithmetic fault) m ↔
      (v.before.steps : Int) < limits.steps ∧ v.ready.Strays v.command.action fault ∧ m = v.ready := by
  have hbegin : (v.before.begin v.command.line).steps = v.before.steps + 1 := rfl
  by_cases hstop : limits.steps < (v.before.begin v.command.line).steps
  · rw [startCommand_of_stop hstop]
    exact iff_of_false nofun (fun h => by omega)
  · rw [startCommand_of_go hstop, Machine.act_eq_arithmetic_iff]
    exact (and_iff_right (by omega)).symm

/-- A fault of arithmetic stops a run if and only if one of the commands that it starts strays. -/
theorem execute_eq_arithmetic_iff {limits : Limits} {resolution : Int} {commands : List Command}
    {comments : List Comment} {fault : ArithmeticFault} :
    (∃ m, execute limits resolution commands comments = .failed (.arithmetic fault) m) ↔
      ∃ v ∈ journal limits commands (.start resolution comments),
        (v.before.steps : Int) < limits.steps ∧ v.ready.Strays v.command.action fault := by
  simp only [execute_eq_failed_iff,
    runCommands_eq_failed_iff (show (Failure.arithmetic fault).isNesting = false from rfl),
    startCommand_eq_arithmetic_iff]
  constructor
  · rintro ⟨-, v, hv, hsteps, hstrays, rfl⟩
    exact ⟨v, hv, hsteps, hstrays⟩
  · rintro ⟨v, hv, hsteps, hstrays⟩
    exact ⟨v.ready, v, hv, hsteps, hstrays, rfl⟩

/-- Processing a script answers the fault that stops its run. -/
theorem Session.process_fault (s : Session) (text : Text) (fault : ArithmeticFault) :
    (s.process text).2.1 = some fault ↔
      ∃ m, execute s.limits s.settings.resolution (parse 1 text).commands (parse 1 text).comments =
        .failed (.arithmetic fault) m := by
  have hexecute : execute (s.beginText text).1.limits (s.beginText text).1.settings.resolution
      (s.beginText text).2.commands (s.beginText text).2.comments =
      execute s.limits s.settings.resolution (parse 1 text).commands (parse 1 text).comments := rfl
  rw [← hexecute]
  unfold process
  dsimp only
  split
  · rename_i m hrun
    rw [hrun]
    refine iff_of_false (fun h : none = some fault => by cases h) ?_
    rintro ⟨n, h⟩
    cases h
  · rename_i fault' line m hrun
    rw [hrun]
    refine iff_of_false (fun h : none = some fault => by cases h) ?_
    rintro ⟨n, h⟩
    cases h
  · rename_i fault' m hrun
    rw [hrun]
    exact ⟨fun h => ⟨m, by cases h; rfl⟩, fun ⟨n, h⟩ => by cases h; rfl⟩

/-- A fault of arithmetic stops a run, and the processing of a script, if and only if one of the
commands that it starts strays: a forward or backward move at a heading that is infinite in radians,
or an arc whose resolution, number of steps or vertex angles leave the finite floats. -/
theorem fault_iff_strays (fault : ArithmeticFault) :
    (∀ (limits : Limits) (resolution : Int) (commands : List Command) (comments : List Comment),
      (∃ m, execute limits resolution commands comments = .failed (.arithmetic fault) m) ↔
        ∃ v ∈ journal limits commands (.start resolution comments),
          (v.before.steps : Int) < limits.steps ∧ v.ready.Strays v.command.action fault) ∧
    ∀ (s : Session) (text : Text),
      (s.process text).2.1 = some fault ↔
        ∃ v ∈ journal s.limits (parse 1 text).commands
            (.start s.settings.resolution (parse 1 text).comments),
          (v.before.steps : Int) < s.limits.steps ∧ v.ready.Strays v.command.action fault := by
  refine ⟨fun limits resolution commands comments => execute_eq_arithmetic_iff, fun s text => ?_⟩
  rw [s.process_fault, execute_eq_arithmetic_iff]

/-- Two turns that are finite each add up to an infinite heading, and the next move stops the script
without a line. -/
theorem process_fault_of_infinite_heading :
    let s : Session := { settings := .default, machine := .idle 40 }
    (s.process "RT 1e308\nRT 1e308\nFD 1".toList).2.1 = some .infiniteAngle := by
  decide +kernel

end TurtleTrace
