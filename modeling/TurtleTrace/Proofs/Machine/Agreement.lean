import TurtleTrace.Machine.Run

/-!
# Two runs side by side

Two runs agree if both come to their end, or both fail in the same way, in states that are related.
Some failures are excused: a run that ends in one of them agrees with any other. Agreement is passed
on from actions to commands, from commands to rows of them, and from one round of a loop to all of
them, so a result about two runs needs a relation between states and one lemma about actions.

* `Outcome.Agree`, `Step.Agree`: agreement of runs and of single actions.
* `Outcome.failsBy`: whether a run fails in one of some ways.
* `Outcome.Agree.runAll`, `Outcome.Agree.replay`: agreement of rows and of loops.
-/

namespace TurtleTrace

set_option autoImplicit false

/-! ## How a command runs -/

section RunCommand

variable {limits : Limits} {command : Command} {m m' : Machine}

theorem runCommand_of_done (h : startCommand limits command m = .done m') (room depth : Nat) :
    runCommand limits room depth command m = .done m' := by
  unfold runCommand
  simp only [h]

theorem runCommand_of_failed {failure : Failure}
    (h : startCommand limits command m = .failed failure m') (room depth : Nat) :
    runCommand limits room depth command m = .failed failure m' := by
  unfold runCommand
  simp only [h]

variable {frame : Frame} {body : List Command} {depth : Nat}

theorem runCommand_of_tooDeep (h : startCommand limits command m = .enter frame body m')
    (hdeep : limits.callDepth ≤ depth) (room : Nat) :
    runCommand limits room depth command m =
      .failed (.script (.tooDeep limits.callDepth) frame.line) m' := by
  unfold runCommand
  simp only [h, if_pos hdeep]

theorem runCommand_of_noRoom (h : startCommand limits command m = .enter frame body m')
    (hdeep : ¬ limits.callDepth ≤ depth) :
    runCommand limits 0 depth command m = .failed (.script .nestingExhausted command.line) m' := by
  unfold runCommand
  simp only [h, if_neg hdeep]

theorem runCommand_of_enter (h : startCommand limits command m = .enter frame body m')
    (hdeep : ¬ limits.callDepth ≤ depth) (room : Nat) :
    runCommand limits (room + 1) depth command m =
      replay (runAll (runCommand limits room (depth + 1)) body) frame.count.toNat
        (m'.record (.entered frame (depth + 1))) := by
  rw [runCommand]
  simp only [h, if_neg hdeep]

end RunCommand

/-! ## Agreement -/

section Agree

variable (excused excused' : Failure → Bool) (R : Machine → Machine → Prop)

/-- Two runs end alike in related states, or one of them fails in a way that is excused there. -/
inductive Outcome.Agree : Outcome → Outcome → Prop where
  | done {m m' : Machine} (h : R m m') : Agree (.done m) (.done m')
  | failed {m m' : Machine} (failure : Failure) (h : R m m') :
      Agree (.failed failure m) (.failed failure m')
  | left {failure : Failure} (h : excused failure = true) (m : Machine) (o : Outcome) :
      Agree (.failed failure m) o
  | right {failure : Failure} (h : excused' failure = true) (o : Outcome) (m : Machine) :
      Agree o (.failed failure m)

/-- Two actions have the same result in related states, or one of them fails in a way that is excused
there. -/
inductive Step.Agree : Step → Step → Prop where
  | done {m m' : Machine} (h : R m m') : Agree (.done m) (.done m')
  | enter {m m' : Machine} (frame : Frame) (body : List Command) (h : R m m') :
      Agree (.enter frame body m) (.enter frame body m')
  | failed {m m' : Machine} (failure : Failure) (h : R m m') :
      Agree (.failed failure m) (.failed failure m')
  | left {failure : Failure} (h : excused failure = true) (m : Machine) (s : Step) :
      Agree (.failed failure m) s
  | right {failure : Failure} (h : excused' failure = true) (s : Step) (m : Machine) :
      Agree s (.failed failure m)

end Agree

variable {excused excused' : Failure → Bool} {R : Machine → Machine → Prop}

theorem Step.Agree.refl (s : Step) : Step.Agree excused excused' Eq s s := by
  cases s with
  | done m => exact .done rfl
  | enter frame body m => exact .enter frame body rfl
  | failed failure m => exact .failed failure rfl

/-- Whether a run fails in one of the given ways. -/
def Outcome.failsBy (ways : Failure → Bool) : Outcome → Bool
  | done _ => false
  | failed failure _ => ways failure

/-- Runs that do not fail in an excused way agree without excuses. -/
theorem Outcome.Agree.spare {o o' : Outcome} (h : Outcome.Agree excused excused' R o o')
    (hspared : o.failsBy excused = false) (hspared' : o'.failsBy excused' = false) :
    Outcome.Agree (fun _ => false) (fun _ => false) R o o' := by
  cases h with
  | done h => exact .done h
  | failed failure h => exact .failed failure h
  | left h m o' =>
    rw [failsBy, h] at hspared
    cases hspared
  | right h o m =>
    rw [failsBy, h] at hspared'
    cases hspared'

theorem Outcome.Agree.eq {o o' : Outcome}
    (h : Outcome.Agree (fun _ => false) (fun _ => false) Eq o o') : o = o' := by
  cases h with
  | done h => rw [h]
  | failed failure h => rw [h]
  | left h => cases h
  | right h => cases h

/-! ## Rows and loops -/

/-- Runs that agree go on alike. -/
theorem Outcome.Agree.andThen {o o' : Outcome} (h : Outcome.Agree excused excused' R o o')
    {next next' : Machine → Outcome}
    (hnext : ∀ m m', R m m' → Outcome.Agree excused excused' R (next m) (next' m')) :
    Outcome.Agree excused excused' R (o.andThen next) (o'.andThen next') := by
  cases h with
  | done hm => exact hnext _ _ hm
  | failed failure hm => exact .failed failure hm
  | left he m o' => exact .left he m _
  | right he o m => exact .right he _ m

theorem runAll_cons (run : Command → Machine → Outcome) (command : Command)
    (rest : List Command) (m : Machine) :
    runAll run (command :: rest) m = (run command m).andThen (runAll run rest) := by
  rw [runAll]
  cases run command m <;> rfl

theorem replay_succ (run : Machine → Outcome) (n : Nat) (m : Machine) :
    replay run (n + 1) m = (run m).andThen (replay run n) := by
  rw [replay]
  cases run m <;> rfl

theorem Outcome.Agree.runAll {run run' : Command → Machine → Outcome} {commands : List Command}
    (h : ∀ command ∈ commands, ∀ m m', R m m' →
      Outcome.Agree excused excused' R (run command m) (run' command m'))
    {m m' : Machine} (hm : R m m') :
    Outcome.Agree excused excused' R (runAll run commands m) (runAll run' commands m') := by
  induction commands generalizing m m' with
  | nil => exact .done hm
  | cons command rest ih =>
    have hfirst := h command List.mem_cons_self m m' hm
    have hrest := fun c hc => h c (List.mem_cons_of_mem command hc)
    rw [runAll_cons, runAll_cons]
    exact hfirst.andThen fun n n' hn => ih hrest hn

theorem Outcome.Agree.replay {run run' : Machine → Outcome}
    (h : ∀ m m', R m m' → Outcome.Agree excused excused' R (run m) (run' m')) (n : Nat)
    {m m' : Machine} (hm : R m m') :
    Outcome.Agree excused excused' R (replay run n m) (replay run' n m') := by
  induction n generalizing m m' with
  | zero => exact .done hm
  | succ n ih =>
    rw [replay_succ, replay_succ]
    exact (h m m' hm).andThen fun k k' hk => ih hk

/-! ## Actions -/

namespace Step.Agree

variable {m m' : Machine} {line : Int}

theorem withValue (hm : R m m') (hb : m.bindings = m'.bindings) (e : Expr)
    {next next' : Float → Step} (h : ∀ v, Step.Agree excused excused' R (next v) (next' v)) :
    Step.Agree excused excused' R (m.withValue line e next) (m'.withValue line e next') := by
  unfold Machine.withValue
  rw [hb]
  split
  · exact .failed _ hm
  · exact h _

theorem withResult {α : Type} (hm : R m m') (result : Except ArithmeticFault α)
    {next next' : α → Step} (h : ∀ a, Step.Agree excused excused' R (next a) (next' a)) :
    Step.Agree excused excused' R (m.withResult result next) (m'.withResult result next') := by
  unfold Machine.withResult
  split
  · exact .failed _ hm
  · exact h _

theorem withCount (hm : R m m') (hb : m.bindings = m'.bindings) (count : Expr)
    {next next' : Int → Step} (h : ∀ n, Step.Agree excused excused' R (next n) (next' n)) :
    Step.Agree excused excused' R (m.withCount line count next) (m'.withCount line count next') := by
  refine withValue hm hb count fun v => withResult hm _ fun n => ?_
  split
  · exact .done hm
  · exact h n

/-- Reading a body leads to agreement where the relation does not look at the trace. -/
theorem withBody (hrecord : ∀ event, R (m.record event) (m'.record event)) (firstLine : Int)
    (text : Text) {next next' : List Command → Machine → Step}
    (h : ∀ body event,
      Step.Agree excused excused' R (next body (m.record event)) (next' body (m'.record event))) :
    Step.Agree excused excused' R (m.withBody firstLine text next)
      (m'.withBody firstLine text next') := by
  simp only [Machine.withBody]
  split
  · exact h _ _
  · exact .failed _ (hrecord _)

theorem withStored (hm : R m m') (hb : m.bindings = m'.bindings)
    (hrecord : ∀ event, R (m.record event) (m'.record event)) (name : Text)
    {next next' : List Command → Machine → Step}
    (h : ∀ body event,
      Step.Agree excused excused' R (next body (m.record event)) (next' body (m'.record event))) :
    Step.Agree excused excused' R (m.withStored line name next)
      (m'.withStored line name next') := by
  unfold Machine.withStored
  rw [hb]
  split
  · exact .failed _ hm
  · exact withBody hrecord _ _ fun body event => h _ event

end Step.Agree

end TurtleTrace
