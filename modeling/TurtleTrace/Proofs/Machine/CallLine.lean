import TurtleTrace.Proofs.Drawing.Segments
import TurtleTrace.Proofs.Machine.Breakdown
import TurtleTrace.Proofs.Script.Lines

/-!
# The line that a call reports on

While a stored list runs, its commands are attributed to the line that runs it, and so are those of
the lists that they run in turn. Only the body of a loop and a list that cannot be read are counted on
from there: what a call reports is never above its line, and it is on that line as long as the loops in
the lists have bodies of one line and the lists can be read.

* `Outcome.Reports`: the segments that a run logs and the failure that ends it are on some lines.
* `keepsLine`: whether a list reports on the line that runs it only.
-/

namespace TurtleTrace

set_option autoImplicit false

/-- The body of a loop in brackets, and the line that it starts on. -/
def Action.body? : Action → Option (Text × Int)
  | repeatBody _ body bodyLine => some (body, bodyLine)
  | _ => none

/-- The text of the stored list that a command runs, if it runs one that is bound. -/
def Visit.list? (v : Visit) : Option Text :=
  match v.command.action.listName? with
  | none => none
  | some name => (v.before.bindings.list name).toOption

section Lines

variable (P : Int → Prop)

/-- The segments that a run logs and the failure of a script that ends it are on lines that satisfy a
condition. -/
structure Outcome.Reports (m : Machine) (o : Outcome) : Prop where
  segments : m.drawing.Adds P o.machine.drawing
  failure : ∀ fault line n, o = .failed (.script fault line) n → P line

/-- The line of a command and all lines of the body that it holds satisfy a condition. -/
def Command.Stays (c : Command) : Prop :=
  P c.line ∧ ∀ body bodyLine, c.action.body? = some (body, bodyLine) →
    ∀ k : Nat, k ≤ body.newlines → P (bodyLine + k)

/-- If the line of a command satisfies a condition, so do the lines of the list that it runs. -/
def Visit.ListStays (v : Visit) : Prop :=
  ∀ text, v.list? = some text → P v.command.line →
    (∀ d, (parse v.command.line text).diagnostics.head? = some d → P d.line) ∧
    ∀ c ∈ (parse v.command.line text).commands, (c.relocate v.command.line).Stays P

end Lines

variable {P : Int → Prop} {limits : Limits}

/-! ## Reading -/

section Reading

variable {bodyLine : Int} {body : Text}

theorem stays_line (h : ∀ k : Nat, k ≤ body.newlines → P (bodyLine + k)) {line : Int}
    (hlower : bodyLine ≤ line) (hupper : line ≤ bodyLine + body.newlines) : P line := by
  have hoffset := h (line - bodyLine).toNat (by omega)
  rwa [show bodyLine + ((line - bodyLine).toNat : Int) = line by omega] at hoffset

theorem stays_of_mem_parse (h : ∀ k : Nat, k ≤ body.newlines → P (bodyLine + k)) {c : Command}
    (hc : c ∈ (parse bodyLine body).commands) : c.Stays P := by
  obtain ⟨hlower, hupper⟩ := line_mem_commands_parse hc
  refine ⟨stays_line h hlower hupper, fun inner innerLine hinner k hk => ?_⟩
  cases haction : c.action with
  | repeatBody count text line =>
    rw [haction] at hinner
    cases hinner
    obtain ⟨hlower', hupper'⟩ := bodyLine_mem_commands_parse hc haction
    exact stays_line h (by omega) (by omega)
  | _ =>
    rw [haction] at hinner
    cases hinner

end Reading

/-! ## Commands -/

section Start

variable {command : Command} {m n : Machine}

theorem list?_of_stored {name text : Text} (hruns : command.action.listName? = some name)
    (hstored : m.bindings.list name = .ok text) : Visit.list? ⟨command, m⟩ = some text := by
  simp only [Visit.list?, hruns, hstored, Except.toOption]

theorem adds_ready : m.drawing.Adds P (Visit.ready ⟨command, m⟩).drawing :=
  .of_log (Visit.log_ready _)

theorem stays_of_enter {frame : Frame} {body : List Command}
    (h : startCommand limits command m = .enter frame body n) (hc : command.Stays P)
    (hlist : Visit.ListStays P ⟨command, m⟩) :
    frame.line = command.line ∧ m.drawing.Adds P n.drawing ∧ ∀ c ∈ body, c.Stays P := by
  by_cases hstop : limits.steps < (m.begin command.line).steps
  · rw [startCommand_of_stop hstop] at h
    cases h
  rw [startCommand_of_go hstop] at h
  obtain ⟨action, line⟩ := command
  cases Machine.entry_of_act h with
  | loop readable => exact ⟨rfl, adds_ready, fun c hmem => stays_of_mem_parse (hc.2 _ _ rfl) hmem⟩
  | list runs stored readable =>
    have hstays := (hlist _ (list?_of_stored runs stored) hc.1).2
    refine ⟨rfl, adds_ready, fun c hmem => ?_⟩
    obtain ⟨c', hmem', rfl⟩ := List.mem_map.mp hmem
    exact hstays c' hmem'

theorem reports_of_failed {failure : Failure}
    (h : startCommand limits command m = .failed failure n) (hc : command.Stays P)
    (hlist : Visit.ListStays P ⟨command, m⟩) : Outcome.Reports P m (.failed failure n) := by
  by_cases hstop : limits.steps < (m.begin command.line).steps
  · rw [startCommand_of_stop hstop] at h
    cases h
    refine ⟨.of_log rfl, fun fault line k heq => ?_⟩
    cases heq
    exact hc.1
  rw [startCommand_of_go hstop] at h
  obtain ⟨action, line⟩ := command
  cases Machine.breakdown_of_act h with
  | script fault =>
    refine ⟨adds_ready, fun fault' line' k heq => ?_⟩
    cases heq
    exact hc.1
  | loop unreadable =>
    refine ⟨adds_ready, fun fault' line' k heq => ?_⟩
    cases heq
    obtain ⟨hlower, hupper⟩ := line_mem_diagnostics_parse (List.mem_of_head? unreadable)
    exact stays_line (hc.2 _ _ rfl) hlower hupper
  | list runs stored unreadable =>
    refine ⟨adds_ready, fun fault' line' k heq => ?_⟩
    cases heq
    exact (hlist _ (list?_of_stored runs stored) hc.1).1 _ unreadable
  | arithmetic strays => exact ⟨adds_ready, fun fault' line' k heq => by cases heq⟩

theorem adds_of_done (h : startCommand limits command m = .done n) (hline : P command.line) :
    m.drawing.Adds P n.drawing := by
  by_cases hstop : limits.steps < (m.begin command.line).steps
  · rw [startCommand_of_stop hstop] at h
    cases h
  · rw [startCommand_of_go hstop] at h
    exact adds_ready.trans ((Machine.change_of_act h).adds hline)

end Start

/-! ## Runs -/

namespace Outcome.Reports

variable {Q : Visit → Prop} {m n : Machine}

theorem of_done (h : m.drawing.Adds P n.drawing) : Outcome.Reports P m (.done n) :=
  ⟨h, fun _ _ _ heq => by cases heq⟩

theorem trans {o : Outcome} (h : m.drawing.Adds P n.drawing) (k : Outcome.Reports P n o) :
    Outcome.Reports P m o :=
  ⟨h.trans k.segments, k.failure⟩

theorem runAll {run : Command → Machine → Outcome} {visits : Command → Machine → List Visit}
    {commands : List Command}
    (hrun : ∀ c ∈ commands, ∀ m, (∀ v ∈ visits c m, Q v) → Outcome.Reports P m (run c m))
    (hvisits : ∀ v ∈ visitsAll run visits commands m, Q v) :
    Outcome.Reports P m (runAll run commands m) := by
  induction commands generalizing m with
  | nil => exact of_done (.of_log rfl)
  | cons command rest ih =>
    have hfirst := hrun command List.mem_cons_self m
    have hrest := fun c hc => hrun c (List.mem_cons_of_mem command hc)
    unfold TurtleTrace.runAll
    unfold visitsAll at hvisits
    cases hc : run command m with
    | failed failure k =>
      rw [hc] at hfirst hvisits
      exact hfirst hvisits
    | done k =>
      rw [hc] at hfirst hvisits
      have hfirst' := hfirst fun v hv => hvisits v (List.mem_append_left _ hv)
      exact trans hfirst'.segments (ih hrest fun v hv => hvisits v (List.mem_append_right _ hv))

theorem replay {run : Machine → Outcome} {visits : Machine → List Visit}
    (hrun : ∀ m, (∀ v ∈ visits m, Q v) → Outcome.Reports P m (run m)) {k : Nat}
    (hvisits : ∀ v ∈ visitsReplay run visits k m, Q v) :
    Outcome.Reports P m (replay run k m) := by
  induction k generalizing m with
  | zero => exact of_done (.of_log rfl)
  | succ k ih =>
    have hfirst := hrun m
    unfold TurtleTrace.replay
    unfold visitsReplay at hvisits
    cases hr : run m with
    | failed failure l =>
      rw [hr] at hfirst hvisits
      exact hfirst hvisits
    | done l =>
      rw [hr] at hfirst hvisits
      have hfirst' := hfirst fun v hv => hvisits v (List.mem_append_left _ hv)
      exact trans hfirst'.segments (ih fun v hv => hvisits v (List.mem_append_right _ hv))

end Outcome.Reports

/-- A command whose lines satisfy a condition reports on such lines, as long as the lists that it and
the commands inside it run stay on them. -/
theorem reports_runCommand (room depth : Nat) {command : Command} {m : Machine}
    (hc : command.Stays P)
    (hlists : ∀ v ∈ visitsOf limits room depth command m, v.ListStays P) :
    Outcome.Reports P m (runCommand limits room depth command m) := by
  have hlist : Visit.ListStays P ⟨command, m⟩ := by
    refine hlists _ ?_
    unfold visitsOf
    exact List.mem_cons_self
  cases hs : startCommand limits command m with
  | done n =>
    rw [runCommand_of_done hs]
    exact .of_done (adds_of_done hs hc.1)
  | failed failure n =>
    rw [runCommand_of_failed hs]
    exact reports_of_failed hs hc hlist
  | enter frame body n =>
    obtain ⟨hframe, hadds, hbody⟩ := stays_of_enter hs hc hlist
    by_cases hdeep : limits.callDepth ≤ depth
    · rw [runCommand_of_tooDeep hs hdeep]
      refine ⟨hadds, fun fault line k heq => ?_⟩
      cases heq
      exact hframe ▸ hc.1
    · cases room with
      | zero =>
        rw [runCommand_of_noRoom hs hdeep]
        refine ⟨hadds, fun fault line k heq => ?_⟩
        cases heq
        exact hc.1
      | succ room =>
        rw [runCommand_of_enter hs hdeep]
        rw [visitsOf_of_enter hs hdeep] at hlists
        have hentered : m.drawing.Adds P (n.record (.entered frame (depth + 1))).drawing := hadds
        refine .trans hentered (.replay (fun k => .runAll fun c hmem l => ?_)
          fun v hv => hlists v (List.mem_cons_of_mem _ hv))
        exact reports_runCommand room (depth + 1) (hbody c hmem)

/-! ## Calls -/

/-- Whether a list that runs on a line reports on that line only: its first diagnostic, if it has one,
is there, and no loop in it has a body of several lines. -/
def keepsLine (line : Int) (text : Text) : Bool :=
  (parse line text).diagnostics.head?.all (·.line == line) &&
    (parse line text).commands.all fun c => c.action.body?.all fun (body, _) => body.newlines == 0

theorem body?_relocate (line : Int) (c : Command) :
    (c.relocate line).action.body? = c.action.body?.map fun (body, _) => (body, line) := by
  obtain ⟨action, _⟩ := c
  cases action <;> rfl

theorem stays_relocate {line : Int} {c : Command} (hline : P line)
    (hbody : ∀ body bodyLine, c.action.body? = some (body, bodyLine) →
      ∀ k : Nat, k ≤ body.newlines → P (line + k)) : (c.relocate line).Stays P := by
  refine ⟨by rwa [c.line_relocate], fun body bodyLine h => ?_⟩
  rw [body?_relocate, Option.map_eq_some_iff] at h
  obtain ⟨⟨body', bodyLine'⟩, hc, heq⟩ := h
  cases heq
  exact hbody body bodyLine' hc

/-- No list reports above the line that runs it. -/
theorem listStays_le (line : Int) (v : Visit) : v.ListStays (line ≤ ·) := by
  intro text _ hline
  refine ⟨fun d hd => ?_, fun c _ => stays_relocate hline fun body bodyLine _ k _ => by omega⟩
  exact Int.le_trans hline (line_mem_diagnostics_parse (List.mem_of_head? hd)).1

theorem listStays_eq {line : Int} {v : Visit}
    (h : v.list?.all (keepsLine v.command.line) = true) : v.ListStays (· = line) := by
  intro text htext hline
  rw [htext, Option.all_some, keepsLine, Bool.and_eq_true] at h
  obtain ⟨hfirst, hbodies⟩ := h
  refine ⟨fun d hd => ?_, fun c hc => stays_relocate hline fun body bodyLine hbody k hk => ?_⟩
  · rw [hd] at hfirst
    rw [eq_of_beq hfirst]
    exact hline
  · have hone := List.all_eq_true.mp hbodies c hc
    rw [hbody] at hone
    have hzero : body.newlines = 0 := eq_of_beq hone
    omega

/-- Everything that a call or a named loop reports, at any depth of loops and further calls, is on its
line or below it. It is on its line if every list that is run keeps to the line that runs it. -/
theorem call_reports_on_its_line (limits : Limits) (room depth : Nat) (command : Command)
    (m : Machine) (hcall : command.action.listName?.isSome = true) :
    Outcome.Reports (command.line ≤ ·) m (runCommand limits room depth command m) ∧
    ((∀ v ∈ visitsOf limits room depth command m,
        v.list?.all (keepsLine v.command.line) = true) →
      Outcome.Reports (· = command.line) m (runCommand limits room depth command m)) := by
  have hnone : command.action.body? = none := by
    obtain ⟨action, line⟩ := command
    cases action with
    | repeatBody => cases hcall
    | _ => rfl
  have hstays : ∀ P : Int → Prop, P command.line → command.Stays P := fun P hline =>
    ⟨hline, fun body bodyLine hbody => by rw [hnone] at hbody; cases hbody⟩
  exact ⟨reports_runCommand room depth (hstays _ (Int.le_refl _)) fun v _ => listStays_le _ v,
    fun hkeeps => reports_runCommand room depth (hstays _ rfl) fun v hv => listStays_eq (hkeeps v hv)⟩

/-- A list of three lines whose loop calls another list of two lines, which fails in the first round,
all on the line of the call. -/
theorem call_reports_of_nested_lists :
    let outer := "SETX 1\nREPEAT 2 [SETY 2; :b]\nSETX 5".toList
    let inner := "HOME\nSETX :z".toList
    let m := ((Machine.start 40 []).bind "a".toList (.list outer)).bind "b".toList (.list inner)
    let command : Command := ⟨.call "a".toList, 7⟩
    let o := runCommand {} 10 0 command m
    o.machine.drawing.segments.size = 3 ∧
      o.failsBy (· = .script (.eval (.lookup (.undefined "z".toList))) 7) = true ∧
      Outcome.Reports (7 ≤ ·) m o ∧ Outcome.Reports (· = 7) m o := by
  intro outer inner m command o
  obtain ⟨hbelow, hline⟩ := call_reports_on_its_line {} 10 0 command m rfl
  exact ⟨by decide +kernel, by decide +kernel, hbelow, hline (by decide +kernel)⟩

/-- A loop in a stored list whose body has two lines: its second command is attributed to the line
below the call. -/
theorem lines_of_call_with_long_loop :
    let parsed := parse 1 "MAKE \"a [REPEAT 1 [SETX 1\nSETX 2]]\n:a".toList
    parsed.commands.map (·.line) = [1, 3] ∧
      (execute {} 40 parsed.commands parsed.comments).machine.drawing.segments.toList.map (·.line) =
        [3, 4] := by
  decide +kernel

end TurtleTrace
