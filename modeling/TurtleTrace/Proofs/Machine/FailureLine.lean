import TurtleTrace.Proofs.Machine.CallLine
import TurtleTrace.Proofs.Machine.Reachable
import TurtleTrace.Proofs.Machine.Regular

/-!
# The line that a failure is reported on

A script that fails is reported on the line of the command that was started last, however many loops
and calls are open around it. A body that cannot be read is reported where its first diagnostic is. The
commands around the one that failed pass its failure on as it is.

* `Visit.Blames`: the line that a command reports a fault on.
* `OpenCommands`: the commands that are open at a point of a run, the outermost first.
* `Broken`: how a row of commands fails.
-/

namespace TurtleTrace

set_option autoImplicit false

/-! ## One command -/

/-- The body that a loop or a call reads, and the number of its first line. -/
def Visit.body? (v : Visit) : Option (Int × Text) :=
  match v.command.action.body? with
  | some (text, bodyLine) => some (bodyLine, text)
  | none => v.list?.map fun text => (v.command.line, text)

/-- The line that a fault of a command is reported on: its own, or that of the first diagnostic of the
body that it reads. -/
inductive Visit.Blames (v : Visit) : Fault → Int → Prop where
  | own {fault : Fault} (plain : ∀ message, fault ≠ .malformedBody message) :
      Blames v fault v.command.line
  | body {firstLine : Int} {text : Text} {d : Diagnostic} (reads : v.body? = some (firstLine, text))
      (first : (parse firstLine text).diagnostics.head? = some d) :
      Blames v (.malformedBody d.message) d.line

section Start

variable {limits : Limits} {v : Visit} {m : Machine}

theorem Visit.body?_of_listName {name text : Text} (hruns : v.command.action.listName? = some name)
    (hstored : v.before.bindings.list name = .ok text) : v.body? = some (v.command.line, text) := by
  have hnone : v.command.action.body? = none := by
    cases haction : v.command.action with
    | repeatBody =>
      rw [haction] at hruns
      cases hruns
    | _ => rfl
  rw [body?, hnone, list?_of_stored hruns hstored]
  rfl

theorem Visit.blames_of_failed {fault : Fault} {line : Int}
    (h : startCommand limits v.command v.before = .failed (.script fault line) m) :
    v.Blames fault line ∧ m.line = some v.command.line := by
  by_cases hstop : limits.steps < (v.before.begin v.command.line).steps
  · rw [startCommand_of_stop hstop] at h
    cases h
    exact ⟨.own nofun, rfl⟩
  · rw [startCommand_of_go hstop] at h
    obtain ⟨trace, rfl⟩ := Machine.trace_of_act_failed h
    refine ⟨?_, rfl⟩
    obtain ⟨⟨action, line⟩, before⟩ := v
    cases Machine.breakdown_of_act h with
    | script fault plain => exact .own plain
    | loop unreadable => exact .body rfl unreadable
    | list runs stored unreadable => exact .body (body?_of_listName runs stored) unreadable

/-- A frame is opened on the line of its command, and is the last thing that has started. -/
theorem Visit.line_of_enter {frame : Frame} {body : List Command}
    (h : startCommand limits v.command v.before = .enter frame body m) :
    frame.line = v.command.line ∧ m.line = some v.command.line := by
  have hact := act_ready h fun _ _ => nofun
  obtain ⟨-, -, event, rfl⟩ := Machine.trace_of_act hact
  refine ⟨?_, rfl⟩
  obtain ⟨⟨action, line⟩, before⟩ := v
  cases Machine.entry_of_act hact with
  | loop | list => rfl

end Start

/-! ## Rows and rounds -/

/-- A command of a row that starts when those before it have run. -/
def Reaches (run : Command → Machine → Outcome) (commands : List Command) (m : Machine) (v : Visit) :
    Prop :=
  ∃ before after, commands = before ++ v.command :: after ∧ runAll run before m = .done v.before

section Rows

variable {failure : Failure} {m m' : Machine}

/-- A row of commands fails with one that it reaches, which is the last to start anything. -/
theorem exists_of_runAll_failed {run : Command → Machine → Outcome}
    (visits : Command → Machine → List Visit) {commands : List Command}
    (h : runAll run commands m = .failed failure m') :
    ∃ v : Visit, Reaches run commands m v ∧ run v.command v.before = .failed failure m' ∧
      ∃ earlier, visitsAll run visits commands m = earlier ++ visits v.command v.before := by
  induction commands generalizing m with
  | nil => cases h
  | cons command rest ih =>
    unfold runAll at h
    unfold visitsAll
    cases hc : run command m with
    | failed failure' n =>
      rw [hc] at h
      cases h
      exact ⟨⟨command, m⟩, ⟨[], rest, rfl, rfl⟩, hc, [], rfl⟩
    | done n =>
      rw [hc] at h
      obtain ⟨v, ⟨before, after, hrest, hbefore⟩, hfails, earlier, hvisits⟩ := ih h
      refine ⟨v, ⟨command :: before, after, ?_, ?_⟩, hfails, visits command m ++ earlier, ?_⟩
      · rw [hrest, List.cons_append]
      · simp only [runAll, hc, hbefore]
      · simp only [hvisits, List.append_assoc]

/-- Rounds fail with one of them, which is the last to start anything. -/
theorem exists_of_replay_failed {run : Machine → Outcome} (visits : Machine → List Visit) {n : Nat}
    (h : replay run n m = .failed failure m') :
    ∃ rounds k, rounds < n ∧ replay run rounds m = .done k ∧ run k = .failed failure m' ∧
      ∃ earlier, visitsReplay run visits n m = earlier ++ visits k := by
  induction n generalizing m with
  | zero => cases h
  | succ n ih =>
    unfold replay at h
    unfold visitsReplay
    cases hr : run m with
    | failed failure' k =>
      rw [hr] at h
      cases h
      exact ⟨0, m, Nat.succ_pos n, rfl, hr, [], rfl⟩
    | done k =>
      rw [hr] at h
      obtain ⟨rounds, l, hlt, hrounds, hfails, earlier, hvisits⟩ := ih h
      refine ⟨rounds + 1, l, Nat.succ_lt_succ hlt, ?_, hfails, visits m ++ earlier, ?_⟩
      · simp only [replay, hr, hrounds]
      · simp only [hvisits, List.append_assoc]

end Rows

/-! ## Open commands -/

/-- The commands that are open at a point of a run, the outermost first: each of them has opened the
frame in which the next one is started, after some rounds of its body and the commands before it. -/
inductive OpenCommands (limits : Limits) :
    (room depth : Nat) → List Command → Machine → List Visit → Prop where
  | last {room depth : Nat} {commands : List Command} {m : Machine} {v : Visit}
      (reached : Reaches (runCommand limits room depth) commands m v) :
      OpenCommands limits room depth commands m [v]
  | inside {room depth rounds : Nat} {commands body : List Command} {m n k : Machine} {v : Visit}
      {frame : Frame} {visits : List Visit}
      (reached : Reaches (runCommand limits (room + 1) depth) commands m v)
      (enters : startCommand limits v.command v.before = .enter frame body n)
      (allowed : ¬ limits.callDepth ≤ depth) (going : rounds < frame.count.toNat)
      (replayed : replay (runAll (runCommand limits room (depth + 1)) body) rounds
        (n.record (.entered frame (depth + 1))) = .done k)
      (rest : OpenCommands limits room (depth + 1) body k visits) :
      OpenCommands limits (room + 1) depth commands m (v :: visits)

/-- How a row of commands fails, with the commands around the one that fails first: this one was
started last, its fault is reported on the line that it blames, and the commands around it fail with the
same fault, on the same line and in the same state. -/
structure Broken (limits : Limits) (room depth : Nat) (commands : List Command) (m : Machine)
    (fault : Fault) (line : Int) (m' : Machine) (outer : List Visit) (v : Visit) : Prop where
  nested : OpenCommands limits room depth commands m (outer ++ [v])
  last : ∃ earlier, visitsAll (runCommand limits room depth) (visitsOf limits room depth) commands m =
    earlier ++ [v]
  noted : m'.line = some v.command.line
  blames : v.Blames fault line
  passed : ∀ i u, (outer ++ [v])[i]? = some u →
    runCommand limits (room - i) (depth + i) u.command u.before = .failed (.script fault line) m'

section Broken

variable {limits : Limits} {room depth : Nat} {commands : List Command} {m m' : Machine}
  {fault : Fault} {line : Int} {v : Visit}

/-- A command that fails before it has started another one. -/
theorem Broken.single {earlier : List Visit}
    (hreached : Reaches (runCommand limits room depth) commands m v)
    (hearlier : visitsAll (runCommand limits room depth) (visitsOf limits room depth) commands m =
      earlier ++ visitsOf limits room depth v.command v.before)
    (hfails : runCommand limits room depth v.command v.before = .failed (.script fault line) m')
    (hvisits : visitsOf limits room depth v.command v.before = [v])
    (hnoted : m'.line = some v.command.line) (hblames : v.Blames fault line) :
    Broken limits room depth commands m fault line m' [] v where
  nested := .last hreached
  last := ⟨earlier, by rw [hearlier, hvisits]⟩
  noted := hnoted
  blames := hblames
  passed i u hu := by
    cases i with
    | zero =>
      cases hu
      exact hfails
    | succ i => cases hu

/-- A command that fails with one that its frame has started. -/
theorem Broken.cons {rounds : Nat} {body : List Command} {n k : Machine} {frame : Frame}
    {outer earlier : List Visit} {w : Visit}
    (hreached : Reaches (runCommand limits (room + 1) depth) commands m v)
    (hearlier : visitsAll (runCommand limits (room + 1) depth) (visitsOf limits (room + 1) depth)
      commands m = earlier ++ visitsOf limits (room + 1) depth v.command v.before)
    (hfails : runCommand limits (room + 1) depth v.command v.before = .failed (.script fault line) m')
    (henters : startCommand limits v.command v.before = .enter frame body n)
    (hallowed : ¬ limits.callDepth ≤ depth) (hgoing : rounds < frame.count.toNat)
    (hreplayed : replay (runAll (runCommand limits room (depth + 1)) body) rounds
      (n.record (.entered frame (depth + 1))) = .done k)
    (hrounds : ∃ rest, visitsReplay (runAll (runCommand limits room (depth + 1)) body)
      (visitsAll (runCommand limits room (depth + 1)) (visitsOf limits room (depth + 1)) body)
      frame.count.toNat (n.record (.entered frame (depth + 1))) = rest ++
        visitsAll (runCommand limits room (depth + 1)) (visitsOf limits room (depth + 1)) body k)
    (h : Broken limits room (depth + 1) body k fault line m' outer w) :
    Broken limits (room + 1) depth commands m fault line m' (v :: outer) w where
  nested := .inside hreached henters hallowed hgoing hreplayed h.nested
  last := by
    obtain ⟨rest, hrest⟩ := hrounds
    obtain ⟨inner, hinner⟩ := h.last
    refine ⟨earlier ++ v :: (rest ++ inner), ?_⟩
    rw [hearlier, visitsOf_of_enter henters hallowed, hrest, hinner]
    simp only [List.append_assoc, List.cons_append]
  noted := h.noted
  blames := h.blames
  passed i u hu := by
    cases i with
    | zero =>
      cases hu
      exact hfails
    | succ i =>
      have hinner := h.passed i u hu
      rwa [show depth + 1 + i = depth + (i + 1) by omega,
        show room - i = room + 1 - (i + 1) by omega] at hinner

end Broken

/-- A row of commands that fails is broken at the command that was started last. -/
theorem broken_of_runAll {limits : Limits} (room depth : Nat) {commands : List Command}
    {m m' : Machine} {fault : Fault} {line : Int}
    (h : runAll (runCommand limits room depth) commands m = .failed (.script fault line) m') :
    ∃ outer v, Broken limits room depth commands m fault line m' outer v := by
  obtain ⟨v, hreached, hfails, earlier, hearlier⟩ :=
    exists_of_runAll_failed (visitsOf limits room depth) h
  have hfailed := hfails
  cases hs : startCommand limits v.command v.before with
  | done n =>
    rw [runCommand_of_done hs] at hfailed
    cases hfailed
  | failed failure n =>
    rw [runCommand_of_failed hs] at hfailed
    cases hfailed
    obtain ⟨hblames, hnoted⟩ := v.blames_of_failed hs
    exact ⟨[], v, .single hreached hearlier hfails (visitsOf_of_failed hs room depth) hnoted hblames⟩
  | enter frame body n =>
    obtain ⟨hframe, hnoted⟩ := v.line_of_enter hs
    by_cases hdeep : limits.callDepth ≤ depth
    · rw [runCommand_of_tooDeep hs hdeep, hframe] at hfailed
      cases hfailed
      exact ⟨[], v, .single hreached hearlier hfails (visitsOf_of_tooDeep hs hdeep room) hnoted
        (.own nofun)⟩
    · cases room with
      | zero =>
        rw [runCommand_of_noRoom hs hdeep] at hfailed
        cases hfailed
        exact ⟨[], v, .single hreached hearlier hfails (visitsOf_of_noRoom hs hdeep) hnoted
          (.own nofun)⟩
      | succ room =>
        rw [runCommand_of_enter hs hdeep] at hfailed
        obtain ⟨rounds, k, hgoing, hreplayed, hround, hrounds⟩ := exists_of_replay_failed
          (visitsAll (runCommand limits room (depth + 1)) (visitsOf limits room (depth + 1)) body)
          hfailed
        obtain ⟨outer, w, hinner⟩ := broken_of_runAll room (depth + 1) hround
        exact ⟨v :: outer, w,
          .cons hreached hearlier hfails hs hdeep hgoing hreplayed hrounds hinner⟩

/-! ## Runs -/

theorem Outcome.exists_of_failsBy {o : Outcome} {failure : Failure}
    (h : o.failsBy (· = failure) = true) : ∃ m, o = .failed failure m := by
  cases o with
  | done m => cases h
  | failed failure' m => exact ⟨m, by rw [of_decide_eq_true h]⟩

/-- A script that fails is reported on the line of the command that was started last, at any depth, or
on that of the first diagnostic of the body that this command reads. All commands that are open around
it fail with the same fault on the same line. -/
theorem failure_line_of_last_started (limits : Limits) (resolution : Int) (commands : List Command)
    (comments : List Comment) (fault : Fault) (line : Int) (m : Machine)
    (h : execute limits resolution commands comments = .failed (.script fault line) m) :
    let start := Machine.start resolution comments
    ∃ outer v, OpenCommands limits limits.nesting 0 commands start (outer ++ [v]) ∧
      (∃ earlier, journal limits commands start = earlier ++ [v]) ∧
      m.line = some v.command.line ∧ v.Blames fault line ∧
      ∀ depth u, (outer ++ [v])[depth]? = some u →
        runCommand limits (limits.nesting - depth) depth u.command u.before =
          .failed (.script fault line) m := by
  obtain ⟨outer, v, hbroken⟩ := broken_of_runAll limits.nesting 0 (execute_eq_failed_iff.mp h)
  refine ⟨outer, v, hbroken.nested, hbroken.last, hbroken.noted, hbroken.blames, fun depth u hu => ?_⟩
  have hpassed := hbroken.passed depth u hu
  rwa [Nat.zero_add] at hpassed

/-- A division by zero in the third round of a loop, in a stored list that the loop calls on its second
line. -/
theorem failure_line_of_call_in_loop :
    let commands := (parse 1
      "MAKE \"n 2\nMAKE \"a [SETX 10 / :n\nMAKE \"n :n - 1]\nREPEAT 5 [HOME\n:a]".toList).commands
    ∃ m, execute {} 40 commands [] = .failed (.script (.eval .divisionByZero) 5) m ∧
      ∃ outer v, OpenCommands {} 1000 0 commands (.start 40 []) (outer ++ [v]) ∧
        v.Blames (.eval .divisionByZero) 5 := by
  intro commands
  have hfails : (execute {} 40 commands []).failsBy (· = .script (.eval .divisionByZero) 5) = true := by
    decide +kernel
  obtain ⟨m, hm⟩ := Outcome.exists_of_failsBy hfails
  obtain ⟨outer, v, hnested, -, -, hblames, -⟩ :=
    failure_line_of_last_started {} 40 commands [] _ _ m hm
  exact ⟨m, hm, outer, v, hnested, hblames⟩

end TurtleTrace
