import TurtleTrace.Proofs.Arc
import TurtleTrace.Proofs.Machine.Agreement
import TurtleTrace.Proofs.Machine.Journal

/-!
# How a command fails

An action fails in one of four ways: with a fault on its line, with a body that cannot be read, which
is reported where the first diagnostic is, or with a fault of arithmetic. Only forward and backward
moves and arcs meet the last, because expressions, counts and resolutions are checked to be finite.
No failing action changes more than the trace.

A run fails because one of the commands in its journal does, or because its frames are nested too
deeply.

* `Machine.Strays`: when the arithmetic of an action fails.
* `Machine.Breakdown`: the ways in which an action fails.
-/

namespace TurtleTrace

set_option autoImplicit false

namespace Machine

/-- When the arithmetic of an action fails, and how. -/
inductive Strays (m : Machine) : Action → ArithmeticFault → Prop where
  | forward {e : Expr} {v : Float} (value : e.evaluate m.bindings = .ok v)
      (infinite : (radians m.turtle.heading).isInf = true) : Strays m (.forward e) .infiniteAngle
  | back {e : Expr} {v : Float} (value : e.evaluate m.bindings = .ok v)
      (infinite : (radians m.turtle.heading).isInf = true) : Strays m (.back e) .infiniteAngle
  | arc {e f : Expr} {angle radius : Float} {fault : ArithmeticFault}
      (angleOk : e.evaluate m.bindings = .ok angle) (radiusOk : f.evaluate m.bindings = .ok radius)
      (curved : (angle == 0 || radius == 0) = false)
      (stray : ArcFault m.turtle.heading angle m.turtle.resolution fault) : Strays m (.arc e f) fault

/-- The ways in which an action fails. -/
inductive Breakdown (m : Machine) (line : Int) : Action → Failure → Machine → Prop where
  | script {action : Action} (fault : Fault) (plain : ∀ message, fault ≠ .malformedBody message) :
      Breakdown m line action (.script fault line) m
  | loop {count : Expr} {text : Text} {bodyLine : Int} {d : Diagnostic}
      (unreadable : (parse bodyLine text).diagnostics.head? = some d) :
      Breakdown m line (.repeatBody count text bodyLine)
        (.script (.malformedBody d.message) d.line) (m.record (parse bodyLine text).event)
  | list {action : Action} {name text : Text} {d : Diagnostic}
      (runs : action.listName? = some name) (stored : m.bindings.list name = .ok text)
      (unreadable : (parse line text).diagnostics.head? = some d) :
      Breakdown m line action (.script (.malformedBody d.message) d.line)
        (m.record (parse line text).event)
  | arithmetic {action : Action} {fault : ArithmeticFault} (strays : m.Strays action fault) :
      Breakdown m line action (.arithmetic fault) m

variable {m m' : Machine} {line : Int} {action : Action} {failure : Failure}

/-! ## Combinators -/

theorem breakdown_withValue {e : Expr} {next : Float → Step}
    (h : m.withValue line e next = .failed failure m')
    (hnext : ∀ v, e.evaluate m.bindings = .ok v → next v = .failed failure m' →
      m.Breakdown line action failure m') : m.Breakdown line action failure m' := by
  unfold withValue at h
  split at h
  · cases h
    exact .script _ (by simp)
  · rename_i v hv
    exact hnext v hv h

theorem withResult_eq_failed {α : Type} {result : Except ArithmeticFault α} {next : α → Step}
    (h : m.withResult result next = .failed failure m') :
    (∃ fault, result = .error fault ∧ failure = .arithmetic fault ∧ m' = m) ∨
      ∃ a, result = .ok a ∧ next a = .failed failure m' := by
  unfold withResult at h
  split at h
  · cases h
    exact .inl ⟨_, rfl, rfl, rfl⟩
  · exact .inr ⟨_, rfl, h⟩

/-- A value that a script may use has a floor. -/
theorem exists_floorInt {e : Expr} {v : Float} (h : e.evaluate m.bindings = .ok v) :
    ∃ n, floorInt v = .ok n := by
  cases hn : floorInt v with
  | ok n => exact ⟨n, rfl⟩
  | error fault =>
    rw [floorInt_eq_error_iff, Expr.isFinite_of_evaluate h] at hn
    cases hn.1

theorem breakdown_withCount {count : Expr} {next : Int → Step}
    (h : m.withCount line count next = .failed failure m')
    (hnext : ∀ n, next n = .failed failure m' → m.Breakdown line action failure m') :
    m.Breakdown line action failure m' := by
  refine breakdown_withValue h fun v hv hn => ?_
  obtain ⟨n, hfloor⟩ := exists_floorInt hv
  rw [hfloor] at hn
  by_cases hpos : n ≤ 0
  · simp only [withResult, if_pos hpos] at hn
    cases hn
  · simp only [withResult, if_neg hpos] at hn
    exact hnext n hn

theorem withBody_eq_failed {firstLine : Int} {text : Text} {next : List Command → Machine → Step}
    (h : m.withBody firstLine text next = .failed failure m')
    (hnext : ∀ body n, next body n ≠ .failed failure m') :
    ∃ d, (parse firstLine text).diagnostics.head? = some d ∧
      failure = .script (.malformedBody d.message) d.line ∧
      m' = m.record (parse firstLine text).event := by
  simp only [withBody] at h
  split at h
  · exact absurd h (hnext _ _)
  · rename_i d ds hd
    cases h
    exact ⟨d, by rw [hd]; rfl, rfl, rfl⟩

theorem breakdown_withStored {name : Text} {next : List Command → Machine → Step}
    (hruns : action.listName? = some name) (h : m.withStored line name next = .failed failure m')
    (hnext : ∀ body n, next body n ≠ .failed failure m') : m.Breakdown line action failure m' := by
  unfold withStored at h
  split at h
  · cases h
    exact .script _ (by simp)
  · rename_i text hstored
    obtain ⟨d, hd, rfl, rfl⟩ := withBody_eq_failed h fun _ _ => hnext _ _
    exact .list hruns hstored hd

/-! ## Every failure is one of the cases -/

theorem advance_eq_error_iff {p : Point} {heading distance : Float} {fault : ArithmeticFault} :
    p.advance heading distance = .error fault ↔
      (radians heading).isInf = true ∧ fault = .infiniteAngle := by
  unfold Point.advance
  rw [bind_eq_error_iff, direction_eq_error_iff]
  exact or_iff_left fun ⟨_, _, h⟩ => nomatch h

theorem moveAlong_eq_failed {distance : Float} (h : m.moveAlong distance line = .failed failure m') :
    (radians m.turtle.heading).isInf = true ∧ failure = .arithmetic .infiniteAngle ∧ m' = m := by
  obtain ⟨fault, hfault, rfl, rfl⟩ | ⟨p, -, hp⟩ := withResult_eq_failed h
  · obtain ⟨hinf, rfl⟩ := advance_eq_error_iff.mp hfault
    exact ⟨hinf, rfl, rfl⟩
  · cases hp

theorem breakdown_of_act (h : m.act action line = .failed failure m') :
    m.Breakdown line action failure m' := by
  cases action with
  | forward e =>
    refine breakdown_withValue h fun v hv hn => ?_
    obtain ⟨hinf, rfl, rfl⟩ := moveAlong_eq_failed hn
    exact .arithmetic (.forward hv hinf)
  | back e =>
    refine breakdown_withValue h fun v hv hn => ?_
    obtain ⟨hinf, rfl, rfl⟩ := moveAlong_eq_failed hn
    exact .arithmetic (.back hv hinf)
  | left e | right e | setHeading e | setX e | setY e | makeNumber name e =>
    refine breakdown_withValue h fun v _ hn => ?_
    cases hn
  | setXY e f =>
    refine breakdown_withValue h fun x _ hx => breakdown_withValue hx fun y _ hn => ?_
    cases hn
  | arc e f =>
    refine breakdown_withValue h fun angle he hx => breakdown_withValue hx fun radius hf hn => ?_
    unfold arc at hn
    split at hn
    · cases hn
    · rename_i hcurved
      obtain ⟨fault, hfault, rfl, rfl⟩ | ⟨vertices, -, hv⟩ := withResult_eq_failed hn
      · have hstray := (arcVertices_eq_error_iff (Expr.isFinite_of_evaluate he)).mp hfault
        exact .arithmetic (.arc he hf (by simpa using hcurved) hstray)
      · cases hv
  | repeatBody count text bodyLine =>
    refine breakdown_withCount h fun n hn => ?_
    obtain ⟨d, hd, rfl, rfl⟩ := withBody_eq_failed hn fun _ _ => nofun
    exact .loop hd
  | repeatNamed count name =>
    exact breakdown_withCount h fun n hn => breakdown_withStored rfl hn fun _ _ => nofun
  | call name => exact breakdown_withStored rfl h fun _ _ => nofun
  | print items =>
    simp only [act, print] at h
    split at h
    · cases h
      exact .script _ (by simp)
    · cases h
  | setResolution e =>
    refine breakdown_withValue h fun v hv hn => ?_
    obtain ⟨n, hfloor⟩ := exists_floorInt hv
    simp only [setResolution, withResult, hfloor] at hn
    split at hn
    · cases hn
      exact .script _ (by simp)
    · cases hn
  | marker label place =>
    cases place with
    | none => cases h
    | some place =>
      refine breakdown_withValue h fun x _ hx => breakdown_withValue hx fun y _ hn => ?_
      cases hn
  | home | penUp | penDown | makeList name body | notePosition label => cases h

/-- The arithmetic of an action fails exactly where it strays, and the machine stays as it is. -/
theorem act_eq_arithmetic_iff {fault : ArithmeticFault} :
    m.act action line = .failed (.arithmetic fault) m' ↔ m.Strays action fault ∧ m' = m := by
  constructor
  · intro h
    cases breakdown_of_act h with
    | arithmetic strays => exact ⟨strays, rfl⟩
  · rintro ⟨strays, hm⟩
    rw [hm]
    cases strays with
    | forward value infinite | back value infinite =>
      simp only [act, withValue, value, moveAlong, withResult,
        advance_eq_error_iff.mpr ⟨infinite, rfl⟩]
    | @arc e f angle radius fault angleOk radiusOk curved stray =>
      have hvertices : arcVertices m.turtle.position m.turtle.heading angle radius
          m.turtle.resolution = .error fault :=
        (arcVertices_eq_error_iff (Expr.isFinite_of_evaluate angleOk)).mpr stray
      simp only [act, withValue, angleOk, radiusOk, arc, curved, withResult, hvertices]
      rfl

end Machine

/-! ## Runs -/

/-- Whether frames were nested too deeply. -/
def Failure.isNesting : Failure → Bool
  | script (.tooDeep _) _ | script .nestingExhausted _ => true
  | _ => false

section Runs

variable {m' : Machine} {failure : Failure} {Fails : Visit → Prop}

theorem runAll_eq_failed_iff {run : Command → Machine → Outcome}
    {visits : Command → Machine → List Visit}
    (hrun : ∀ command m, run command m = .failed failure m' ↔ ∃ v ∈ visits command m, Fails v)
    (commands : List Command) (m : Machine) :
    runAll run commands m = .failed failure m' ↔
      ∃ v ∈ visitsAll run visits commands m, Fails v := by
  induction commands generalizing m with
  | nil =>
    refine iff_of_false nofun ?_
    rintro ⟨v, hv, -⟩
    cases hv
  | cons command rest ih =>
    have hfirst := hrun command m
    cases hc : run command m with
    | failed failure' n =>
      simp only [runAll, visitsAll, hc]
      rwa [hc] at hfirst
    | done n =>
      rw [hc] at hfirst
      have hnone : ¬ ∃ v ∈ visits command m, Fails v := fun h => by cases hfirst.mpr h
      simp only [runAll, visitsAll, hc, List.mem_append, or_and_right, exists_or]
      rw [or_iff_right hnone]
      exact ih n

theorem replay_eq_failed_iff {run : Machine → Outcome} {visits : Machine → List Visit}
    (hrun : ∀ m, run m = .failed failure m' ↔ ∃ v ∈ visits m, Fails v) (n : Nat) (m : Machine) :
    replay run n m = .failed failure m' ↔ ∃ v ∈ visitsReplay run visits n m, Fails v := by
  induction n generalizing m with
  | zero =>
    refine iff_of_false nofun ?_
    rintro ⟨v, hv, -⟩
    cases hv
  | succ n ih =>
    have hfirst := hrun m
    cases hr : run m with
    | failed failure' k =>
      simp only [replay, visitsReplay, hr]
      rwa [hr] at hfirst
    | done k =>
      rw [hr] at hfirst
      have hnone : ¬ ∃ v ∈ visits m, Fails v := fun h => by cases hfirst.mpr h
      simp only [replay, visitsReplay, hr, List.mem_append, or_and_right, exists_or]
      rw [or_iff_right hnone]
      exact ih k

end Runs

section RunCommand

variable {limits : Limits} {failure : Failure} {m' : Machine}

/-- A command fails if and only if one that it starts does, unless frames are nested too deeply. -/
theorem runCommand_eq_failed_iff (hnesting : failure.isNesting = false) (room depth : Nat)
    (command : Command) (m : Machine) :
    runCommand limits room depth command m = .failed failure m' ↔
      ∃ v ∈ visitsOf limits room depth command m,
        startCommand limits v.command v.before = .failed failure m' := by
  cases hs : startCommand limits command m with
  | done n =>
    rw [runCommand_of_done hs]
    unfold visitsOf
    simp [hs]
  | failed failure' n =>
    rw [runCommand_of_failed hs]
    unfold visitsOf
    simp [hs]
  | enter frame body n =>
    by_cases hdeep : limits.callDepth ≤ depth
    · rw [runCommand_of_tooDeep hs hdeep]
      unfold visitsOf
      simp only [hs, if_pos hdeep, List.mem_singleton, exists_eq_left]
      refine iff_of_false (fun h => ?_) nofun
      cases h
      cases hnesting
    · cases room with
      | zero =>
        rw [runCommand_of_noRoom hs hdeep]
        unfold visitsOf
        simp only [hs, if_neg hdeep, List.mem_singleton, exists_eq_left]
        refine iff_of_false (fun h => ?_) nofun
        cases h
        cases hnesting
      | succ room =>
        rw [runCommand_of_enter hs hdeep, visitsOf_of_enter hs hdeep]
        simp only [List.mem_cons, or_and_right, exists_or, exists_eq_left, hs]
        rw [or_iff_right nofun]
        exact replay_eq_failed_iff
          (runAll_eq_failed_iff (runCommand_eq_failed_iff hnesting room (depth + 1)) body) _ _

theorem runCommands_eq_failed_iff (hnesting : failure.isNesting = false) (commands : List Command)
    (m : Machine) :
    runCommands limits commands m = .failed failure m' ↔
      ∃ v ∈ journal limits commands m,
        startCommand limits v.command v.before = .failed failure m' :=
  runAll_eq_failed_iff (runCommand_eq_failed_iff hnesting limits.nesting 0) commands m

end RunCommand

theorem execute_eq_failed_iff {limits : Limits} {resolution : Int} {commands : List Command}
    {comments : List Comment} {failure : Failure} {m : Machine} :
    execute limits resolution commands comments = .failed failure m ↔
      runCommands limits commands (.start resolution comments) = .failed failure m := by
  unfold execute
  cases runCommands limits commands (.start resolution comments) with
  | done n => exact iff_of_false nofun nofun
  | failed failure' n => exact Iff.rfl

end TurtleTrace
