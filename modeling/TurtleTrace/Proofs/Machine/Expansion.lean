import TurtleTrace.Proofs.Machine.Unrolling
import TurtleTrace.Proofs.Number.Finite

/-!
# Derived commands

Some commands stand for others: a backward move for a forward move by the negated distance, a turn to
the left for one to the right, the way home for a line to the origin and a heading, and a call for a
loop of one round. A command may be replaced by what it stands for anywhere in a script, the bodies of
loops included. The two runs differ in the commands that they count and in the trace, so a run that
the limit on started commands stops is left out.

* `Command.Expands`: a command and the commands that it stands for.
* `Expanded`: commands some of which are replaced.
* `Machine.SameState`: states that differ in counting and in the trace alone.
-/

namespace TurtleTrace

set_option autoImplicit false

/-! ## Replacements -/

/-- What a derived command stands for, on the same line. -/
inductive Command.Expands : Command → List Command → Prop where
  | back (e : Expr) (line : Int) : Expands ⟨.back e, line⟩ [⟨.forward (.negate e), line⟩]
  | left (e : Expr) (line : Int) : Expands ⟨.left e, line⟩ [⟨.right (.negate e), line⟩]
  | home (line : Int) :
      Expands ⟨.home, line⟩ [⟨.setXY (.number 0) (.number 0), line⟩, ⟨.setHeading (.number 0), line⟩]
  | call (name : Text) (line : Int) :
      Expands ⟨.call name, line⟩ [⟨.repeatNamed (.number 1) name, line⟩]

/-- Commands some of which are replaced by what they stand for. The body of a loop is a text, so one
body replaces another if reading them gives commands that are replaced and the same diagnostics. -/
inductive Expanded : List Command → List Command → Prop where
  | nil : Expanded [] []
  | keep (command : Command) {rest rest' : List Command} (after : Expanded rest rest') :
      Expanded (command :: rest) (command :: rest')
  | replace {command : Command} {others rest rest' : List Command} (first : command.Expands others)
      (after : Expanded rest rest') : Expanded (command :: rest) (others ++ rest')
  | loop (count : Expr) {body body' : Text} {bodyLine : Int} (line : Int) {rest rest' : List Command}
      (diagnostics : (parse bodyLine body).diagnostics = (parse bodyLine body').diagnostics)
      (inside : Expanded (parse bodyLine body).commands (parse bodyLine body').commands)
      (after : Expanded rest rest') :
      Expanded (⟨.repeatBody count body bodyLine, line⟩ :: rest)
        (⟨.repeatBody count body' bodyLine, line⟩ :: rest')

/-- Whether a run was stopped by the limit on started commands. -/
def Failure.isStepLimit : Failure → Bool
  | script (.tooManySteps _) _ => true
  | _ => false

/-! ## Negated values -/

theorem Expr.evaluate_negate (b : Bindings) (e : Expr) :
    (negate e).evaluate b = (e.evaluate b).map (-·) := by
  cases he : e.eval b with
  | error fault => simp only [evaluate, eval, he, Except.map]
  | ok v =>
    simp only [evaluate, eval, he, isFinite_neg_eq]
    split <;> rfl

namespace Machine

theorem withValue_negate (m : Machine) (line : Int) (e : Expr) (next : Float → Step) :
    m.withValue line (.negate e) next = m.withValue line e fun v => next (-v) := by
  unfold withValue
  rw [Expr.evaluate_negate]
  cases e.evaluate m.bindings <;> rfl

theorem act_back (m : Machine) (e : Expr) (line : Int) :
    m.act (.back e) line = m.act (.forward (.negate e)) line :=
  (m.withValue_negate line e fun v => m.moveAlong v line).symm

theorem act_left (m : Machine) (e : Expr) (line : Int) :
    m.act (.left e) line = m.act (.right (.negate e)) line :=
  (m.withValue_negate line e fun v => .done (m.onTurtle (·.turn v))).symm

end Machine

/-- Comments are placed by whether the command makes a point, and by nothing else of its kind. -/
theorem Canvas.beforeCommand_congr {kind kind' : Kind} (h : kind.makesPoint = kind'.makesPoint)
    (c : Canvas) (line : Int) (penDown : Bool) (position : Point) :
    c.beforeCommand kind line penDown position = c.beforeCommand kind' line penDown position := by
  unfold beforeCommand Drawing.placeBefore
  rw [h]

/-- Comments above a line are placed once, whatever is drawn on the line in between. -/
theorem Canvas.beforeCommand_again (c : Canvas) (kind kind' : Kind) (line : Int) (penDown : Bool)
    (position position' : Point) (f : Drawing → Drawing) :
    ((c.beforeCommand kind line penDown position).onDrawing f).beforeCommand kind' line penDown
        position' =
      (c.beforeCommand kind line penDown position).onDrawing f := by
  by_cases hpassed : (!penDown || decide (line ≤ c.queue.cursor)) = true
  · have hsame : c.beforeCommand kind line penDown position = c := if_pos hpassed
    rw [hsame]
    exact if_pos hpassed
  · have hplaced : (c.beforeCommand kind line penDown position).queue.cursor = line := by
      rw [beforeCommand, if_neg hpassed]
      rfl
    refine if_pos ?_
    show (!penDown || decide (line ≤ (c.beforeCommand kind line penDown position).queue.cursor)) = true
    rw [hplaced, decide_eq_true (Int.le_refl line), Bool.or_true]

/-! ## States that differ in counting alone -/

/-- States with the same turtle, canvas and bindings. The number of counted commands, the line of the
last one and the trace may differ. -/
structure Machine.SameState (m m' : Machine) : Prop where
  turtle : m.turtle = m'.turtle
  canvas : m.canvas = m'.canvas
  bindings : m.bindings = m'.bindings

namespace Machine.SameState

variable {m m' : Machine}

theorem record (h : m.SameState m') (event event' : Event) :
    (m.record event).SameState (m'.record event') :=
  ⟨h.turtle, h.canvas, h.bindings⟩

/-- What changes turtle, canvas and bindings by what they were keeps them the same. -/
theorem respects : Respects SameState where
  turtle h := h.turtle
  bindings h := h.bindings
  record h event := h.record event event
  bind h name value := ⟨h.turtle, h.canvas, congrArg (·.set name value) h.bindings⟩
  steer h f _ _ := ⟨congrArg f h.turtle, h.canvas, h.bindings⟩
  lineTo h p line := by
    unfold Machine.lineTo
    rw [h.turtle, h.canvas]
    exact ⟨rfl, rfl, h.bindings⟩
  penUp h line := by
    unfold Machine.penUp
    rw [h.turtle, h.canvas]
    split
    · exact ⟨rfl, rfl, h.bindings⟩
    · exact h
  penDown h line := by
    unfold Machine.penDown
    rw [h.turtle, h.canvas]
    split
    · exact h
    · exact ⟨rfl, rfl, h.bindings⟩
  traceArc h vertices _ angle radius line := by
    unfold Machine.traceArc
    rw [h.turtle, h.canvas]
    exact ⟨rfl, rfl, h.bindings⟩
  mark h p label := ⟨h.turtle, congrArg (·.onDrawing (·.addMarker p label)) h.canvas, h.bindings⟩
  placeNote h text line := by
    unfold Machine.placeNote Machine.onCanvas
    rw [h.turtle, h.canvas]
    split
    · exact ⟨rfl, rfl, h.bindings⟩
    · exact ⟨rfl, rfl, h.bindings⟩

theorem ready (h : m.SameState m') (action action' : Action)
    (hpoint : action.kind.makesPoint = action'.kind.makesPoint) (line : Int) :
    (Visit.ready ⟨⟨action, line⟩, m⟩).SameState (Visit.ready ⟨⟨action', line⟩, m'⟩) := by
  refine ⟨h.turtle, ?_, h.bindings⟩
  show m.canvas.beforeCommand action.kind line m.turtle.penDown m.turtle.position =
    m'.canvas.beforeCommand action'.kind line m'.turtle.penDown m'.turtle.position
  rw [h.turtle, h.canvas, Canvas.beforeCommand_congr hpoint]

theorem finish (h : m.SameState m') : m.finish.SameState m'.finish :=
  ⟨h.turtle, congrArg Canvas.finish h.canvas, h.bindings⟩

end Machine.SameState

/-! ## Runs side by side -/

/-- Agreement of runs where neither is stopped by the step limit. -/
abbrev Outcome.Like : Outcome → Outcome → Prop :=
  Outcome.Agree Failure.isStepLimit Failure.isStepLimit Machine.SameState

/-- Rows of commands that run alike from states that differ in counting alone, at every depth. -/
def Interchangeable (limits : Limits) (commands others : List Command) : Prop :=
  ∀ room depth m m', m.SameState m' →
    (runAll (runCommand limits room depth) commands m).Like
      (runAll (runCommand limits room depth) others m')

/-- Actions with results alike: frames may differ in kind and name, and in bodies that run alike. -/
inductive Step.Like (limits : Limits) : Step → Step → Prop where
  | done {m m' : Machine} (h : m.SameState m') : Like limits (.done m) (.done m')
  | enter {m m' : Machine} {frame frame' : Frame} {body body' : List Command}
      (line : frame.line = frame'.line) (count : frame.count = frame'.count)
      (inside : Interchangeable limits body body') (h : m.SameState m') :
      Like limits (.enter frame body m) (.enter frame' body' m')
  | failed {m m' : Machine} (failure : Failure) (h : m.SameState m') :
      Like limits (.failed failure m) (.failed failure m')
  | left {failure : Failure} (h : failure.isStepLimit = true) (m : Machine) (s : Step) :
      Like limits (.failed failure m) s
  | right {failure : Failure} (h : failure.isStepLimit = true) (s : Step) (m : Machine) :
      Like limits s (.failed failure m)

section Runs

variable {limits : Limits} {m m' : Machine}

/-- A relation between steps that excuses the step limit holds of two commands on one line that place
comments alike, if it holds of their actions. -/
theorem Machine.SameState.startCommand {R : Step → Step → Prop} (h : m.SameState m')
    {action action' : Action} {line : Int}
    (hleft : ∀ {failure : Failure}, failure.isStepLimit = true → ∀ n s, R (.failed failure n) s)
    (hright : ∀ {failure : Failure}, failure.isStepLimit = true → ∀ s n, R s (.failed failure n))
    (hpoint : action.kind.makesPoint = action'.kind.makesPoint)
    (hact : ∀ n n' : Machine, n.SameState n' → R (n.act action line) (n'.act action' line)) :
    R (startCommand limits ⟨action, line⟩ m) (startCommand limits ⟨action', line⟩ m') := by
  by_cases hstop : limits.steps < (m.begin line).steps
  · rw [startCommand_of_stop hstop]
    exact hleft rfl _ _
  by_cases hstop' : limits.steps < (m'.begin line).steps
  · rw [startCommand_of_stop hstop']
    exact hright rfl _ _
  · rw [startCommand_of_go hstop, startCommand_of_go hstop']
    exact hact _ _ (h.ready action action' hpoint line)

/-- The same command runs alike. -/
theorem Machine.SameState.like (h : m.SameState m') (limits : Limits) (room depth : Nat)
    (command : Command) :
    (runCommand limits room depth command m).Like (runCommand limits room depth command m') :=
  agree_runCommand_marked (fun _ => false) (R := fun _ => SameState) (k := 0)
    (fun _ _ _ _ hn => hn.startCommand .left .right rfl fun _ _ hk => respects.act hk _ _)
    (fun event _ _ _ hn => hn.record event event) room depth command h

theorem Interchangeable.refl (limits : Limits) (commands : List Command) :
    Interchangeable limits commands commands := fun room depth _ _ h =>
  .runAll (fun c _ _ _ hn => hn.like limits room depth c) h

theorem Step.Agree.like {s s' : Step}
    (h : Step.Agree Failure.isStepLimit Failure.isStepLimit Machine.SameState s s') :
    Step.Like limits s s' := by
  cases h with
  | done h => exact .done h
  | enter frame body h => exact .enter rfl rfl (.refl limits body) h
  | failed failure h => exact .failed failure h
  | left he n s' => exact .left he n s'
  | right he s n => exact .right he s n

/-- Commands that start alike run alike. -/
theorem Step.Like.runCommand {action action' : Action} {line : Int}
    (h : Step.Like limits (startCommand limits ⟨action, line⟩ m)
      (startCommand limits ⟨action', line⟩ m')) (room depth : Nat) :
    (runCommand limits room depth ⟨action, line⟩ m).Like
      (runCommand limits room depth ⟨action', line⟩ m') := by
  generalize hs : startCommand limits ⟨action, line⟩ m = s at h
  generalize hs' : startCommand limits ⟨action', line⟩ m' = s' at h
  cases h with
  | done hn =>
    rw [runCommand_of_done hs, runCommand_of_done hs']
    exact .done hn
  | failed failure hn =>
    rw [runCommand_of_failed hs, runCommand_of_failed hs']
    exact .failed failure hn
  | left he n =>
    rw [runCommand_of_failed hs]
    exact .left he n _
  | right he _ n =>
    rw [runCommand_of_failed hs']
    exact .right he _ n
  | enter hline hcount inside hn =>
    by_cases hdeep : limits.callDepth ≤ depth
    · rw [runCommand_of_tooDeep hs hdeep, runCommand_of_tooDeep hs' hdeep, hline]
      exact .failed _ hn
    cases room with
    | zero =>
      rw [runCommand_of_noRoom hs hdeep, runCommand_of_noRoom hs' hdeep]
      exact .failed _ hn
    | succ room =>
      rw [runCommand_of_enter hs hdeep, runCommand_of_enter hs' hdeep, hcount]
      exact .replay (fun k k' hk => inside room (depth + 1) k k' hk) _ (hn.record _ _)

/-- Two commands on one line that place comments alike run alike, if their actions do. -/
theorem Machine.SameState.like_of_act (h : m.SameState m') (action action' : Action) {line : Int}
    (hpoint : action.kind.makesPoint = action'.kind.makesPoint)
    (hact : ∀ n n' : Machine, n.SameState n' →
      Step.Like limits (n.act action line) (n'.act action' line)) (room depth : Nat) :
    (runCommand limits room depth ⟨action, line⟩ m).Like
      (runCommand limits room depth ⟨action', line⟩ m') :=
  Step.Like.runCommand (h.startCommand .left .right hpoint hact) room depth

/-! ## Replaced commands -/

/-- Reading two bodies with the same diagnostics leads to failures alike, or to commands. -/
theorem Step.Like.withBody (h : m.SameState m') {firstLine : Int} {text text' : Text}
    (hdiagnostics : (parse firstLine text).diagnostics = (parse firstLine text').diagnostics)
    {next next' : List Command → Machine → Step}
    (hnext : ∀ n n' : Machine, n.SameState n' →
      Step.Like limits (next (parse firstLine text).commands n)
        (next' (parse firstLine text').commands n')) :
    Step.Like limits (m.withBody firstLine text next) (m'.withBody firstLine text' next') := by
  simp only [Machine.withBody, hdiagnostics]
  split
  · exact hnext _ _ (h.record _ _)
  · exact .failed _ (h.record _ _)

/-- A call asks for the frame that a loop of one round asks for. -/
theorem Machine.SameState.call (h : m.SameState m') (name : Text) (line : Int) :
    Step.Like limits (m.act (.call name) line) (m'.act (.repeatNamed (.number 1) name) line) := by
  have hloop : m'.act (.repeatNamed (.number 1) name) line =
      m'.withStored line name fun commands n => .enter ⟨.repeat, line, some name, 1⟩ commands n :=
    withCount_of_pos (v := 1) rfl rfl (by decide)
  rw [hloop]
  show Step.Like limits (m.withStored line name _) _
  unfold withStored
  rw [h.bindings]
  split
  · exact .failed _ h
  · exact .withBody h rfl fun n n' hn => .enter rfl rfl (.refl limits _) hn

/-- A loop asks for a frame with its own body. -/
theorem Machine.SameState.loop (h : m.SameState m') (count : Expr) {body body' : Text}
    {bodyLine : Int} (line : Int)
    (hdiagnostics : (parse bodyLine body).diagnostics = (parse bodyLine body').diagnostics)
    (hinside : Interchangeable limits (parse bodyLine body).commands
      (parse bodyLine body').commands) :
    Step.Like limits (m.act (.repeatBody count body bodyLine) line)
      (m'.act (.repeatBody count body' bodyLine) line) := by
  show Step.Like limits (m.withCount line count _) (m'.withCount line count _)
  unfold withCount withValue
  rw [h.bindings]
  split
  · exact .failed _ h
  · dsimp only [withResult]
    split
    · exact .failed _ h
    · split
      · exact .done h
      · exact .withBody h hdiagnostics fun n n' hn => .enter rfl rfl hinside hn

/-- The way home is a line to the origin, and then a heading. The comments above it are placed before
the line, and none are left for the heading. -/
theorem Machine.SameState.home (h : m.SameState m') (line : Int) :
    let ready := Visit.ready ⟨⟨.setXY (.number 0) (.number 0), line⟩, m'⟩
    let again := Visit.ready ⟨⟨.setHeading (.number 0), line⟩, ready.lineTo .origin line⟩
    (((Visit.ready ⟨⟨.home, line⟩, m⟩).lineTo .origin line).onTurtle (·.setHeading 0)).SameState
      (again.onTurtle (·.setHeading 0)) := by
  intro ready again
  have hline := respects.lineTo
    (h.ready .home (.setXY (.number 0) (.number 0)) rfl line) .origin line
  have hagain : again.canvas = (ready.lineTo .origin line).canvas :=
    Canvas.beforeCommand_again m'.canvas .setxy .seth line m'.turtle.penDown m'.turtle.position
      .origin _
  exact ⟨congrArg (·.setHeading 0) hline.turtle, hline.canvas.trans hagain.symm, hline.bindings⟩

theorem like_home (h : m.SameState m') (room depth : Nat) (line : Int) :
    (runCommand limits room depth ⟨.home, line⟩ m).Like
      (runAll (runCommand limits room depth)
        [⟨.setXY (.number 0) (.number 0), line⟩, ⟨.setHeading (.number 0), line⟩] m') := by
  by_cases hstop : limits.steps < (m.begin line).steps
  · rw [runCommand_of_failed (startCommand_of_stop hstop)]
    exact .left rfl _ _
  by_cases hstop' : limits.steps < (m'.begin line).steps
  · rw [runAll, runCommand_of_failed (startCommand_of_stop hstop')]
    exact .right rfl _ _
  let n := (Visit.ready ⟨⟨.setXY (.number 0) (.number 0), line⟩, m'⟩).lineTo .origin line
  have hhome : runCommand limits room depth ⟨.home, line⟩ m =
      .done (((Visit.ready ⟨⟨.home, line⟩, m⟩).lineTo .origin line).onTurtle (·.setHeading 0)) :=
    runCommand_of_done (startCommand_of_go hstop) room depth
  have hline : runCommand limits room depth ⟨.setXY (.number 0) (.number 0), line⟩ m' = .done n :=
    runCommand_of_done (startCommand_of_go hstop') room depth
  rw [hhome, runAll, hline]
  dsimp only
  by_cases hstop'' : limits.steps < (n.begin line).steps
  · rw [runAll, runCommand_of_failed (startCommand_of_stop hstop'')]
    exact .right rfl _ _
  · have hheading : runCommand limits room depth ⟨.setHeading (.number 0), line⟩ n =
        .done ((Visit.ready ⟨⟨.setHeading (.number 0), line⟩, n⟩).onTurtle (·.setHeading 0)) :=
      runCommand_of_done (startCommand_of_go hstop'') room depth
    rw [runAll, hheading]
    exact .done (h.home line)

theorem runAll_singleton (run : Command → Machine → Outcome) (command : Command) (m : Machine) :
    runAll run [command] m = run command m := by
  unfold runAll
  cases run command m <;> rfl

/-- A command runs like what it stands for. -/
theorem Command.Expands.like {command : Command} {others : List Command}
    (h : command.Expands others) (hm : m.SameState m') (room depth : Nat) :
    (runCommand limits room depth command m).Like
      (runAll (runCommand limits room depth) others m') := by
  cases h with
  | home line => exact like_home hm room depth line
  | back e line =>
    rw [runAll_singleton]
    refine hm.like_of_act (.back e) (.forward (.negate e)) rfl (fun n n' hn => ?_) room depth
    rw [n.act_back]
    exact (Machine.SameState.respects.act hn _ line).like
  | left e line =>
    rw [runAll_singleton]
    refine hm.like_of_act (.left e) (.right (.negate e)) rfl (fun n n' hn => ?_) room depth
    rw [n.act_left]
    exact (Machine.SameState.respects.act hn _ line).like
  | call name line =>
    rw [runAll_singleton]
    exact hm.like_of_act (.call name) (.repeatNamed (.number 1) name) rfl
      (fun n n' hn => hn.call name line) room depth

/-- Commands some of which are replaced run alike, in their own frame and in those of loops. -/
theorem Expanded.interchangeable {commands others : List Command} (h : Expanded commands others)
    (limits : Limits) : Interchangeable limits commands others := by
  -- By the replacements; the body of a loop has replacements of its own.
  induction h with
  | nil => exact .refl limits []
  | keep command _ ih =>
    intro room depth m m' hm
    rw [runAll_cons, runAll_cons]
    exact (hm.like limits room depth command).andThen (ih room depth)
  | replace first _ ih =>
    intro room depth m m' hm
    rw [runAll_cons, runAll_append]
    exact (first.like hm room depth).andThen (ih room depth)
  | @loop count body body' bodyLine line rest rest' diagnostics _ _ inside ih =>
    intro room depth m m' hm
    rw [runAll_cons, runAll_cons]
    refine Outcome.Agree.andThen ?_ (ih room depth)
    exact hm.like_of_act (.repeatBody count body bodyLine) (.repeatBody count body' bodyLine) rfl
      (fun n n' hn => hn.loop count line diagnostics inside) room depth

end Runs

/-- Replacing derived commands by what they stand for, anywhere in a script, changes nothing but the
number of counted commands and the trace: both runs come to their end with the same turtle, drawing
and bindings, or both fail in the same way and on the same line, unless the step limit stops one. -/
theorem execute_expanded {commands others : List Command} (h : Expanded commands others)
    (limits : Limits) (resolution : Int) (comments : List Comment)
    (hsteps : (execute limits resolution commands comments).failsBy Failure.isStepLimit = false)
    (hsteps' : (execute limits resolution others comments).failsBy Failure.isStepLimit = false) :
    Outcome.Agree (fun _ => false) (fun _ => false) Machine.SameState
      (execute limits resolution commands comments) (execute limits resolution others comments) := by
  have hrun : (runCommands limits commands (.start resolution comments)).Like
      (runCommands limits others (.start resolution comments)) :=
    h.interchangeable limits limits.nesting 0 _ _ ⟨rfl, rfl, rfl⟩
  refine Outcome.Agree.spare ?_ hsteps hsteps'
  unfold execute
  generalize runCommands limits commands (.start resolution comments) = o at hrun
  generalize runCommands limits others (.start resolution comments) = o' at hrun
  cases hrun with
  | done hm => exact .done hm.finish
  | failed failure hm => exact .failed failure hm
  | left he m o' => exact .left he m _
  | right he o m => exact .right he _ m

/-- Every derived command, with a comment above the way home, and a loop whose body is replaced. -/
theorem expanded_of_mixed_script :
    let body := "HOME; LT :x".toList
    let expandedBody := "SETXY 0, 0; SETH 0; RT -(:x)".toList
    let a := "a".toList
    let commands : List Command :=
      [⟨.makeNumber "x".toList (.number 30), 1⟩, ⟨.makeList a "LT :x".toList, 1⟩, ⟨.home, 3⟩,
        ⟨.back (.number 2), 4⟩, ⟨.call a, 5⟩, ⟨.repeatBody (.number 2) body 6, 6⟩]
    let others : List Command :=
      [⟨.makeNumber "x".toList (.number 30), 1⟩, ⟨.makeList a "LT :x".toList, 1⟩,
        ⟨.setXY (.number 0) (.number 0), 3⟩, ⟨.setHeading (.number 0), 3⟩,
        ⟨.forward (.negate (.number 2)), 4⟩, ⟨.repeatNamed (.number 1) a, 5⟩,
        ⟨.repeatBody (.number 2) expandedBody 6, 6⟩]
    let comments : List Comment := [⟨"# one".toList, 2, none⟩]
    Expanded commands others ∧
      (execute {} 40 commands comments).isDone = true ∧
      Outcome.Agree (fun _ => false) (fun _ => false) Machine.SameState
        (execute {} 40 commands comments) (execute {} 40 others comments) := by
  intro body expandedBody a commands others comments
  have hbody : (parse 6 body).commands = [⟨.home, 6⟩, ⟨.left (.var "x".toList), 6⟩] := by
    decide +kernel
  have hexpanded : (parse 6 expandedBody).commands = [⟨.setXY (.number 0) (.number 0), 6⟩,
      ⟨.setHeading (.number 0), 6⟩, ⟨.right (.negate (.var "x".toList)), 6⟩] := by
    decide +kernel
  have hinside : Expanded (parse 6 body).commands (parse 6 expandedBody).commands := by
    rw [hbody, hexpanded]
    exact .replace (.home 6) (.replace (.left _ 6) .nil)
  have hall : Expanded commands others :=
    .keep _ (.keep _ (.replace (.home 3) (.replace (.back _ 4) (.replace (.call a 5)
      (.loop _ 6 (by decide +kernel) hinside .nil)))))
  exact ⟨hall, by decide +kernel,
    execute_expanded hall {} 40 comments (by decide +kernel) (by decide +kernel)⟩

end TurtleTrace
