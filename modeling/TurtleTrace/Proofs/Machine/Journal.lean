import TurtleTrace.Proofs.Machine.Change

/-!
# The journal of a run

The journal lists the commands that a run starts, in the order in which they start and each with the
state that it starts in, through all loops and calls. A run that does not fail is a path: each command
of its journal leads to the state in which the next one starts. What every command preserves
therefore holds along the whole run.

* `journal`: the commands that a run starts.
* `Advance`: what starting one command leads to.
* `Path`: a row of commands that lead from one state to another.
-/

namespace TurtleTrace

set_option autoImplicit false

/-- A command that was started, and the state that it was started in. -/
structure Visit where
  command : Command
  before : Machine
  deriving DecidableEq, Repr

/-- The state in which the action of a command is carried out. -/
def Visit.ready (v : Visit) : Machine :=
  (v.before.begin v.command.line).placeComments v.command.kind v.command.line

theorem startCommand_of_stop {limits : Limits} {command : Command} {m : Machine}
    (h : limits.steps < (m.begin command.line).steps) :
    startCommand limits command m =
      .failed (.script (.tooManySteps limits.steps) command.line) (m.begin command.line) :=
  if_pos h

theorem startCommand_of_go {limits : Limits} {command : Command} {m : Machine}
    (h : ¬ limits.steps < (m.begin command.line).steps) :
    startCommand limits command m =
      (Visit.ready ⟨command, m⟩).act command.action command.line :=
  if_neg h

/-- A command that does not fail has carried out its action. -/
theorem Visit.act_ready {limits : Limits} {v : Visit} {s : Step}
    (h : startCommand limits v.command v.before = s) (hs : ∀ failure m, s ≠ .failed failure m) :
    v.ready.act v.command.action v.command.line = s := by
  by_cases hstop : limits.steps < (v.before.begin v.command.line).steps
  · exact absurd ((startCommand_of_stop hstop).symm.trans h).symm (hs _ _)
  · exact (startCommand_of_go hstop).symm.trans h

/-- The note that a command writes, if it writes one. -/
def Visit.note? (v : Visit) : Option Text := v.ready.noteOf v.command.action

/-- Whether a run or a part of it came to its end. -/
def Outcome.isDone : Outcome → Bool
  | done _ => true
  | failed _ _ => false

theorem Outcome.exists_of_isDone {o : Outcome} (h : o.isDone = true) : ∃ m, o = .done m := by
  cases o with
  | done m => exact ⟨m, rfl⟩
  | failed failure m => cases h

/-! ## The commands that a run starts -/

/-- The commands started by running commands one after the other, up to the first failure. -/
def visitsAll (run : Command → Machine → Outcome) (visits : Command → Machine → List Visit) :
    List Command → Machine → List Visit
  | [], _ => []
  | command :: rest, m =>
    match run command m with
    | .done m' => visits command m ++ visitsAll run visits rest m'
    | .failed _ _ => visits command m

/-- The commands started by running the same thing a number of times, up to the first failure. -/
def visitsReplay (run : Machine → Outcome) (visits : Machine → List Visit) :
    Nat → Machine → List Visit
  | 0, _ => []
  | n + 1, m =>
    match run m with
    | .done m' => visits m ++ visitsReplay run visits n m'
    | .failed _ _ => visits m

/-- A command and all those that are started while it runs. -/
def visitsOf (limits : Limits) : (room depth : Nat) → Command → Machine → List Visit
  | room, depth, command, m =>
    ⟨command, m⟩ ::
      match startCommand limits command m with
      | .done _ => []
      | .failed _ _ => []
      | .enter frame body m =>
        if limits.callDepth ≤ depth then []
        else
          match room with
          | 0 => []
          | room + 1 =>
            visitsReplay (runAll (runCommand limits room (depth + 1)) body)
              (visitsAll (runCommand limits room (depth + 1)) (visitsOf limits room (depth + 1)) body)
              frame.count.toNat (m.record (.entered frame (depth + 1)))

/-- The commands that a run from a given state starts. -/
def journal (limits : Limits) (commands : List Command) (m : Machine) : List Visit :=
  visitsAll (runCommand limits limits.nesting 0) (visitsOf limits limits.nesting 0) commands m

section Visits

variable {limits : Limits} {command : Command} {m m' : Machine}

theorem visitsOf_of_done (h : startCommand limits command m = .done m') (room depth : Nat) :
    visitsOf limits room depth command m = [⟨command, m⟩] := by
  unfold visitsOf
  simp only [h]

theorem visitsOf_of_failed {failure : Failure}
    (h : startCommand limits command m = .failed failure m') (room depth : Nat) :
    visitsOf limits room depth command m = [⟨command, m⟩] := by
  unfold visitsOf
  simp only [h]

variable {frame : Frame} {body : List Command} {depth : Nat}

theorem visitsOf_of_tooDeep (h : startCommand limits command m = .enter frame body m')
    (hdeep : limits.callDepth ≤ depth) (room : Nat) :
    visitsOf limits room depth command m = [⟨command, m⟩] := by
  unfold visitsOf
  simp only [h, if_pos hdeep]

theorem visitsOf_of_noRoom (h : startCommand limits command m = .enter frame body m')
    (hdeep : ¬ limits.callDepth ≤ depth) :
    visitsOf limits 0 depth command m = [⟨command, m⟩] := by
  unfold visitsOf
  simp only [h, if_neg hdeep]

/-- The commands that a frame starts come after the one that asks for it. -/
theorem visitsOf_of_enter (h : startCommand limits command m = .enter frame body m')
    (hdeep : ¬ limits.callDepth ≤ depth) (room : Nat) :
    visitsOf limits (room + 1) depth command m = ⟨command, m⟩ ::
      visitsReplay (runAll (runCommand limits room (depth + 1)) body)
        (visitsAll (runCommand limits room (depth + 1)) (visitsOf limits room (depth + 1)) body)
        frame.count.toNat (m'.record (.entered frame (depth + 1))) := by
  rw [visitsOf]
  simp only [h, if_neg hdeep]

end Visits

/-! ## Paths -/

/-- What starting a command leads to: the action is done, or its frame is entered. -/
inductive Advance (limits : Limits) (v : Visit) : Machine → Prop where
  | done {m : Machine} (h : startCommand limits v.command v.before = .done m) : Advance limits v m
  | enter {frame : Frame} {body : List Command} {m : Machine} (depth : Nat)
      (h : startCommand limits v.command v.before = .enter frame body m) :
      Advance limits v (m.record (.entered frame depth))

/-- Commands each of which leads to the state in which the next one starts. -/
inductive Path (limits : Limits) : Machine → List Visit → Machine → Prop where
  | nil (m : Machine) : Path limits m [] m
  | cons {v : Visit} {visits : List Visit} {m' m'' : Machine} (first : Advance limits v m')
      (rest : Path limits m' visits m'') : Path limits v.before (v :: visits) m''

variable {limits : Limits} {m m' m'' : Machine}

theorem Path.single {v : Visit} (h : Advance limits v m') : Path limits v.before [v] m' :=
  .cons h (.nil m')

theorem Path.append {visits others : List Visit} (h : Path limits m visits m')
    (k : Path limits m' others m'') : Path limits m (visits ++ others) m'' := by
  induction h with
  | nil m => exact k
  | cons first _ ih => exact .cons first (ih k)

/-- What every command preserves holds after a path if it holds before it. -/
theorem Path.preserves {P : Machine → Prop} {visits : List Visit}
    (step : ∀ v m', Advance limits v m' → P v.before → P m') (h : Path limits m visits m')
    (hm : P m) : P m' := by
  induction h with
  | nil m => exact hm
  | cons first _ ih => exact ih (step _ _ first hm)

/-! ## Runs are paths -/

theorem path_of_runAll {run : Command → Machine → Outcome}
    {visits : Command → Machine → List Visit}
    (hrun : ∀ command m m', run command m = .done m' → Path limits m (visits command m) m')
    {commands : List Command} (h : runAll run commands m = .done m') :
    Path limits m (visitsAll run visits commands m) m' := by
  induction commands generalizing m with
  | nil =>
    cases h
    exact .nil _
  | cons command rest ih =>
    cases hc : run command m with
    | failed failure n => simp only [runAll, hc] at h; cases h
    | done n =>
      simp only [runAll, hc] at h
      simp only [visitsAll, hc]
      exact (hrun command m n hc).append (ih h)

theorem path_of_replay {run : Machine → Outcome} {visits : Machine → List Visit}
    (hrun : ∀ m m', run m = .done m' → Path limits m (visits m) m') {n : Nat}
    (h : replay run n m = .done m') : Path limits m (visitsReplay run visits n m) m' := by
  induction n generalizing m with
  | zero =>
    cases h
    exact .nil _
  | succ n ih =>
    cases hr : run m with
    | failed failure k => simp only [replay, hr] at h; cases h
    | done k =>
      simp only [replay, hr] at h
      simp only [visitsReplay, hr]
      exact (hrun m k hr).append (ih h)

/-- A command that ran without failure was done at once, or its frame replayed its body. -/
theorem runCommand_eq_done {room depth : Nat} {command : Command}
    (h : runCommand limits room depth command m = .done m') :
    startCommand limits command m = .done m' ∨
      ∃ frame body n inner, startCommand limits command m = .enter frame body n ∧
        ¬ limits.callDepth ≤ depth ∧ room = inner + 1 ∧
        replay (runAll (runCommand limits inner (depth + 1)) body) frame.count.toNat
          (n.record (.entered frame (depth + 1))) = .done m' := by
  unfold runCommand at h
  cases hs : startCommand limits command m with
  | done n =>
    simp only [hs, Outcome.done.injEq] at h
    exact .inl (h ▸ rfl)
  | failed failure n => simp only [hs] at h; cases h
  | enter frame body n =>
    simp only [hs] at h
    split at h
    · cases h
    · rename_i hd
      cases room with
      | zero => cases h
      | succ inner => exact .inr ⟨frame, body, n, inner, rfl, hd, rfl, h⟩

theorem path_of_runCommand {room depth : Nat} {command : Command}
    (h : runCommand limits room depth command m = .done m') :
    Path limits m (visitsOf limits room depth command m) m' := by
  induction room generalizing depth command m m' with
  | zero =>
    obtain hs | ⟨_, _, _, _, -, -, hroom, -⟩ := runCommand_eq_done h
    · rw [visitsOf_of_done hs]
      exact .single (v := ⟨command, m⟩) (.done hs)
    · cases hroom
  | succ room ih =>
    obtain hs | ⟨frame, body, n, inner, hs, hd, hroom, hr⟩ := runCommand_eq_done h
    · rw [visitsOf_of_done hs]
      exact .single (v := ⟨command, m⟩) (.done hs)
    · cases hroom
      rw [visitsOf_of_enter hs hd]
      refine .cons (v := ⟨command, m⟩) (.enter (depth + 1) hs) ?_
      exact path_of_replay (fun _ _ => path_of_runAll fun _ _ _ => ih) hr

theorem path_of_runCommands {commands : List Command}
    (h : runCommands limits commands m = .done m') :
    Path limits m (journal limits commands m) m' :=
  path_of_runAll (fun _ _ _ => path_of_runCommand) h

theorem execute_eq_done {resolution : Int} {commands : List Command} {comments : List Comment}
    (h : execute limits resolution commands comments = .done m) :
    ∃ n, runCommands limits commands (.start resolution comments) = .done n ∧ m = n.finish := by
  unfold execute at h
  split at h
  · rename_i n hn
    cases h
    exact ⟨n, hn, rfl⟩
  · cases h

/-! ## What one command of a path does -/

/-- Every command that leads on has carried out one of the changes, or has only added to the trace. -/
theorem Advance.cases {v : Visit} (h : Advance limits v m') :
    v.ready.Change v.command.line v.command.action m' ∨
      v.command.action.isSilent = true ∧ v.command.kind.makesPoint = false ∧
        ∃ trace, m' = { v.ready with trace := trace } := by
  by_cases hstop : limits.steps < (v.before.begin v.command.line).steps
  · have hfailed := startCommand_of_stop hstop
    cases h with
    | done h =>
      rw [hfailed] at h
      cases h
    | enter depth h =>
      rw [hfailed] at h
      cases h
  · have hact := startCommand_of_go hstop
    cases h with
    | done h => exact .inl (Machine.change_of_act (hact.symm.trans h))
    | enter depth h =>
      obtain ⟨hs, hstill, event, rfl⟩ := Machine.trace_of_act (hact.symm.trans h)
      exact .inr ⟨hs, hstill, _, rfl⟩

end TurtleTrace
