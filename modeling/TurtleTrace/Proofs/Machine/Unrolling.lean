import TurtleTrace.Proofs.Machine.Limits
import TurtleTrace.Proofs.Machine.Lockstep

/-!
# Loops and calls unrolled

Once all comments are placed, a loop or a call does what its body does when it is written out as often
as it runs. The two runs are compared at different depths, so a run that a guard stops is left out.

* `Machine.Unrolls`: the number of rounds and the body that a loop or a call has in a state.
* `Machine.Ahead`: states that differ by one counted command, and in the line, the cursor of the
  comments and the trace.
-/

namespace TurtleTrace

set_option autoImplicit false

/-- Whether a run was stopped by a limit, or because no further level of nesting was left. -/
def Failure.isGuard : Failure → Bool
  | script .nestingExhausted _ => true
  | failure => failure.isLimit

/-! ## Canvases on which no comment waits -/

/-- Canvases with the same drawing and no comment that waits; their cursors may differ. -/
structure Canvas.Alike (c c' : Canvas) : Prop where
  drawing : c.drawing = c'.drawing
  taken : c.queue.taken = c'.queue.taken
  settled : c.queue.waiting = []
  settled' : c'.queue.waiting = []

namespace Canvas

variable {c c' c'' : Canvas}

theorem flushUpTo_of_settled (h : c.queue.waiting = []) (line : Int) : c.flushUpTo line = c := by
  obtain ⟨d, waiting, taken, cursor⟩ := c
  subst h
  rfl

namespace Alike

theorem symm (h : c.Alike c') : c'.Alike c := ⟨h.drawing.symm, h.taken.symm, h.settled', h.settled⟩

theorem trans (h : c.Alike c') (h' : c'.Alike c'') : c.Alike c'' :=
  ⟨h.drawing.trans h'.drawing, h.taken.trans h'.taken, h.settled, h'.settled'⟩

theorem onDrawing (h : c.Alike c') (f : Drawing → Drawing) :
    (c.onDrawing f).Alike (c'.onDrawing f) :=
  ⟨congrArg f h.drawing, h.taken, h.settled, h.settled'⟩

theorem setCursor (h : c.Alike c') (line : Int) : (c.setCursor line).Alike (c'.setCursor line) :=
  ⟨h.drawing, h.taken, h.settled, h.settled'⟩

theorem flushUpTo (h : c.Alike c') (line : Int) : (c.flushUpTo line).Alike (c'.flushUpTo line) := by
  rw [flushUpTo_of_settled h.settled, flushUpTo_of_settled h.settled']
  exact h

end Alike

theorem alike_beforeCommand (h : c.queue.waiting = []) (kind : Kind) (line : Int) (penDown : Bool)
    (position : Point) : (c.beforeCommand kind line penDown position).Alike c := by
  obtain ⟨d, waiting, taken, cursor⟩ := c
  subst h
  unfold beforeCommand
  split
  · exact ⟨rfl, rfl, rfl, rfl⟩
  · exact ⟨rfl, rfl, rfl, rfl⟩

end Canvas

/-! ## States that differ by one counted command -/

/-- The first state has counted one command more. Turtle, drawing and bindings are the same, and no
comment waits. -/
structure Machine.Ahead (m m' : Machine) : Prop where
  turtle : m.turtle = m'.turtle
  canvas : m.canvas.Alike m'.canvas
  bindings : m.bindings = m'.bindings
  steps : m.steps = m'.steps + 1

namespace Machine

theorem alike_closeBeforeArc {c c' : Canvas} (h : c.Alike c') (line : Int) :
    (closeBeforeArc c line).Alike (closeBeforeArc c' line) := by
  unfold closeBeforeArc
  rw [h.drawing]
  split
  · exact h
  · split
    · exact h
    · exact ((h.flushUpTo _).onDrawing _).setCursor _

theorem alike_arcPolygon {c c' : Canvas} (h : c.Alike c') (line : Int) (points : Array Point)
    (circle : Option Circle) :
    (arcPolygon c line points circle).Alike (arcPolygon c' line points circle) :=
  (((((alike_closeBeforeArc h line).onDrawing _).flushUpTo _).onDrawing _).setCursor _)

namespace Ahead

variable {m m' : Machine}

theorem record (h : m.Ahead m') (event event' : Event) : (m.record event).Ahead (m'.record event') :=
  ⟨h.turtle, h.canvas, h.bindings, h.steps⟩

theorem bind (h : m.Ahead m') (name : Text) (value : Value) :
    (m.bind name value).Ahead (m'.bind name value) :=
  ⟨h.turtle, h.canvas, congrArg (·.set name value) h.bindings, h.steps⟩

theorem onTurtle (h : m.Ahead m') (f : Turtle → Turtle) : (m.onTurtle f).Ahead (m'.onTurtle f) :=
  ⟨congrArg f h.turtle, h.canvas, h.bindings, h.steps⟩

theorem onCanvas (h : m.Ahead m') {f f' : Canvas → Canvas}
    (hf : (f m.canvas).Alike (f' m'.canvas)) : (m.onCanvas f).Ahead (m'.onCanvas f') :=
  ⟨h.turtle, hf, h.bindings, h.steps⟩

theorem lineTo (h : m.Ahead m') (p : Point) (line : Int) :
    (m.lineTo p line).Ahead (m'.lineTo p line) := by
  unfold Machine.lineTo
  rw [h.turtle]
  refine ⟨rfl, ?_, h.bindings, h.steps⟩
  dsimp only
  exact h.canvas.onDrawing _

theorem penUp (h : m.Ahead m') (line : Int) : (m.penUp line).Ahead (m'.penUp line) := by
  unfold Machine.penUp
  rw [h.turtle]
  split
  · exact ⟨rfl, ((h.canvas.flushUpTo _).onDrawing _).setCursor _, h.bindings, h.steps⟩
  · exact h

theorem penDown (h : m.Ahead m') (line : Int) : (m.penDown line).Ahead (m'.penDown line) := by
  unfold Machine.penDown
  rw [h.turtle]
  split
  · exact h
  · refine ⟨rfl, ?_, h.bindings, h.steps⟩
    dsimp only
    exact ((h.canvas.flushUpTo _).setCursor _).onDrawing _

theorem traceArc (h : m.Ahead m') (vertices : Array Point) (angle radius : Float) (line : Int) :
    (m.traceArc vertices angle radius line).Ahead (m'.traceArc vertices angle radius line) := by
  unfold Machine.traceArc
  rw [h.turtle]
  refine ⟨rfl, ?_, h.bindings, h.steps⟩
  dsimp only
  split
  · exact alike_arcPolygon (h.canvas.onDrawing _) _ _ _
  · exact h.canvas.onDrawing _

theorem placeNote (h : m.Ahead m') (text : Text) (line : Int) :
    (m.placeNote text line).Ahead (m'.placeNote text line) := by
  unfold Machine.placeNote
  rw [h.turtle]
  split
  · exact h.onCanvas (h.canvas.onDrawing _)
  · exact h.onCanvas ((h.canvas.flushUpTo _).onDrawing _)

/-- An action does the same in both states. -/
theorem respects : Respects Ahead where
  turtle h := h.turtle
  bindings h := h.bindings
  record h event := h.record event event
  bind := bind
  steer h f _ _ := h.onTurtle f
  lineTo := lineTo
  penUp := penUp
  penDown := penDown
  traceArc h vertices _ angle radius line := h.traceArc vertices angle radius line
  mark h _ _ := h.onCanvas (h.canvas.onDrawing _)
  placeNote := placeNote

end Ahead

end Machine

/-! ## Commands at different depths -/

theorem Machine.Ahead.startCommand {m m' : Machine} (h : m.Ahead m') (limits : Limits)
    (command : Command) :
    Step.Agree Failure.isGuard Failure.isGuard Machine.Ahead (startCommand limits command m)
      (startCommand limits command m') := by
  unfold TurtleTrace.startCommand
  by_cases hstop : limits.steps < (m.begin command.line).steps
  · rw [if_pos hstop]
    exact .left rfl _ _
  · by_cases hstop' : limits.steps < (m'.begin command.line).steps
    · rw [if_pos hstop']
      exact .right rfl _ _
    · rw [if_neg hstop, if_neg hstop']
      have hready : ((m.begin command.line).placeComments command.kind command.line).Ahead
          ((m'.begin command.line).placeComments command.kind command.line) := by
        refine ⟨h.turtle, ?_, h.bindings, congrArg (· + 1) h.steps⟩
        exact (Canvas.alike_beforeCommand h.canvas.settled ..).trans
          (h.canvas.trans (Canvas.alike_beforeCommand h.canvas.settled' ..).symm)
      exact respects.act hready command.action command.line

/-- A command that no guard stops does the same at any depth. -/
theorem Machine.Ahead.runCommand {m m' : Machine} (h : m.Ahead m') (limits : Limits)
    (room room' depth depth' : Nat) (command : Command) :
    Outcome.Agree Failure.isGuard Failure.isGuard Machine.Ahead
      (runCommand limits room depth command m) (runCommand limits room' depth' command m') := by
  have hstart := h.startCommand limits command
  generalize hs : TurtleTrace.startCommand limits command m = s at hstart
  generalize hs' : TurtleTrace.startCommand limits command m' = s' at hstart
  cases hstart with
  | done hn =>
    rw [runCommand_of_done hs, runCommand_of_done hs']
    exact .done hn
  | failed failure hn =>
    rw [runCommand_of_failed hs, runCommand_of_failed hs']
    exact .failed failure hn
  | left he n =>
    rw [runCommand_of_failed hs]
    exact .left he n _
  | right he _ n =>
    rw [runCommand_of_failed hs']
    exact .right he _ n
  | enter frame body hn =>
    by_cases hdeep : limits.callDepth ≤ depth
    · rw [runCommand_of_tooDeep hs hdeep]
      exact .left rfl _ _
    by_cases hdeep' : limits.callDepth ≤ depth'
    · rw [runCommand_of_tooDeep hs' hdeep']
      exact .right rfl _ _
    cases room with
    | zero =>
      rw [runCommand_of_noRoom hs hdeep]
      exact .left rfl _ _
    | succ room =>
      cases room' with
      | zero =>
        rw [runCommand_of_noRoom hs' hdeep']
        exact .right rfl _ _
      | succ room' =>
        rw [runCommand_of_enter hs hdeep, runCommand_of_enter hs' hdeep']
        refine .replay (fun k k' hk => .runAll (fun c _ l l' hl => ?_) hk) _ (hn.record _ _)
        exact hl.runCommand limits room room' (depth + 1) (depth' + 1) c

/-! ## Unrolling -/

/-- The count of a loop. -/
def Action.count? : Action → Option Expr
  | repeatBody count _ _ => some count
  | repeatNamed count _ => some count
  | _ => none

/-- In a given state, a command is a loop or a call that runs a body a number of times. The body is
read from the text that is bound now; without a round it does not matter. -/
inductive Machine.Unrolls (m : Machine) : Command → Int → List Command → Prop where
  | idle {action : Action} {line : Int} {count : Expr} {v : Float} {n : Int} {body : List Command}
      (loop : action.count? = some count) (value : count.evaluate m.bindings = .ok v)
      (rounds : floorInt v = .ok n) (none : n ≤ 0) : Unrolls m ⟨action, line⟩ n body
  | loop {count : Expr} {text : Text} {bodyLine line : Int} {v : Float} {n : Int}
      (value : count.evaluate m.bindings = .ok v) (rounds : floorInt v = .ok n)
      (readable : (parse bodyLine text).diagnostics = []) :
      Unrolls m ⟨.repeatBody count text bodyLine, line⟩ n (parse bodyLine text).commands
  | namedLoop {count : Expr} {name text : Text} {line : Int} {v : Float} {n : Int}
      (value : count.evaluate m.bindings = .ok v) (rounds : floorInt v = .ok n)
      (stored : m.bindings.list name = .ok text)
      (readable : (parse line text).diagnostics = []) :
      Unrolls m ⟨.repeatNamed count name, line⟩ n
        ((parse line text).commands.map (·.relocate line))
  | call {name text : Text} {line : Int} (stored : m.bindings.list name = .ok text)
      (readable : (parse line text).diagnostics = []) :
      Unrolls m ⟨.call name, line⟩ 1 ((parse line text).commands.map (·.relocate line))

section Combinators

variable {m : Machine} {line : Int} {count : Expr} {v : Float} {n : Int} {next : Int → Step}

theorem Machine.withCount_of_pos (value : count.evaluate m.bindings = .ok v)
    (rounds : floorInt v = .ok n) (hn : 0 < n) : m.withCount line count next = next n := by
  have hpos : ¬ n ≤ 0 := by omega
  simp only [withCount, withValue, value, withResult, rounds, if_neg hpos]

theorem Machine.withCount_of_nonpos (value : count.evaluate m.bindings = .ok v)
    (rounds : floorInt v = .ok n) (hn : n ≤ 0) : m.withCount line count next = .done m := by
  simp only [withCount, withValue, value, withResult, rounds, if_pos hn]

theorem Machine.withBody_of_readable {text : Text} {next : List Command → Machine → Step}
    (readable : (parse line text).diagnostics = []) :
    m.withBody line text next =
      next (parse line text).commands (m.record (parse line text).event) := by
  simp only [withBody, readable]

theorem Machine.withStored_of_readable {name text : Text} {next : List Command → Machine → Step}
    (stored : m.bindings.list name = .ok text) (readable : (parse line text).diagnostics = []) :
    m.withStored line name next =
      next ((parse line text).commands.map (·.relocate line))
        (m.record (parse line text).event) := by
  simp only [withStored, stored, withBody_of_readable readable]

end Combinators

/-- A loop without rounds is done with, and any other loop or call asks for a frame for its body. -/
theorem Machine.Unrolls.act {m : Machine} {command : Command} {n : Int} {body : List Command}
    (h : m.Unrolls command n body) :
    n ≤ 0 ∧ m.act command.action command.line = .done m ∨
      ∃ frame event, frame.count = n ∧
        m.act command.action command.line = .enter frame body (m.record event) := by
  cases h with
  | @idle action line count v n body loop value rounds none =>
    left
    refine ⟨none, ?_⟩
    cases action with
    | repeatBody count' text bodyLine =>
      cases loop
      exact withCount_of_nonpos value rounds none
    | repeatNamed count' name =>
      cases loop
      exact withCount_of_nonpos value rounds none
    | _ => cases loop
  | @loop count text bodyLine line v n value rounds readable =>
    by_cases hn : n ≤ 0
    · exact .inl ⟨hn, withCount_of_nonpos value rounds hn⟩
    · refine .inr ⟨⟨.repeat, line, Option.none, n⟩, (parse bodyLine text).event, rfl, ?_⟩
      show m.withCount line count _ = _
      rw [withCount_of_pos value rounds (by omega), withBody_of_readable readable]
  | @namedLoop count name text line v n value rounds stored readable =>
    by_cases hn : n ≤ 0
    · exact .inl ⟨hn, withCount_of_nonpos value rounds hn⟩
    · refine .inr ⟨⟨.repeat, line, some name, n⟩, (parse line text).event, rfl, ?_⟩
      show m.withCount line count _ = _
      rw [withCount_of_pos value rounds (by omega), withStored_of_readable stored readable]
  | call stored readable => exact .inr ⟨_, _, rfl, withStored_of_readable stored readable⟩

/-- The number of rounds and the body do not depend on what a command does when it starts. -/
theorem Machine.Unrolls.of_bindings {m m' : Machine} {command : Command} {n : Int}
    {body : List Command} (h : m.Unrolls command n body) (hb : m'.bindings = m.bindings) :
    m'.Unrolls command n body := by
  cases h with
  | idle loop value rounds none => exact .idle loop (hb ▸ value) rounds none
  | loop value rounds readable => exact .loop (hb ▸ value) rounds readable
  | namedLoop value rounds stored readable =>
    exact .namedLoop (hb ▸ value) rounds (hb ▸ stored) readable
  | call stored readable => exact .call (hb ▸ stored) readable

theorem runAll_append (run : Command → Machine → Outcome) (commands others : List Command)
    (m : Machine) :
    runAll run (commands ++ others) m = (runAll run commands m).andThen (runAll run others) := by
  induction commands generalizing m with
  | nil => rfl
  | cons command rest ih =>
    rw [List.cons_append]
    unfold runAll
    cases run command m with
    | done n => exact ih n
    | failed failure n => rfl

/-- Copies of a body one after the other run as the body run that often. -/
theorem runAll_copies (run : Command → Machine → Outcome) (body : List Command) (n : Nat)
    (m : Machine) :
    runAll run (List.replicate n body).flatten m = replay (runAll run body) n m := by
  induction n generalizing m with
  | zero => rfl
  | succ n ih =>
    rw [List.replicate_succ, List.flatten_cons, runAll_append, replay]
    cases runAll run body m with
    | done k => exact ih k
    | failed failure k => rfl

theorem Machine.Unrolls.agree {limits : Limits} {room depth : Nat} {command : Command}
    {m : Machine} {n : Int} {body : List Command} (h : m.Unrolls command n body)
    (hsettled : m.canvas.queue.waiting = []) :
    Outcome.Agree Failure.isGuard Failure.isGuard Machine.Ahead
      (runCommand limits room depth command m)
      (replay (runAll (runCommand limits room depth) body) n.toNat m) := by
  have hready : (Visit.ready ⟨command, m⟩).Ahead m :=
    ⟨rfl, Canvas.alike_beforeCommand hsettled .., rfl, rfl⟩
  by_cases hstop : limits.steps < (m.begin command.line).steps
  · rw [runCommand_of_failed (startCommand_of_stop hstop)]
    exact .left rfl _ _
  have hstart := startCommand_of_go hstop
  obtain ⟨hn, hact⟩ | ⟨frame, event, hcount, hact⟩ := (h.of_bindings hready.bindings).act
  · rw [runCommand_of_done (hstart.trans hact), Int.toNat_of_nonpos hn]
    exact .done hready
  · have hs := hstart.trans hact
    by_cases hdeep : limits.callDepth ≤ depth
    · rw [runCommand_of_tooDeep hs hdeep]
      exact .left rfl _ _
    cases room with
    | zero =>
      rw [runCommand_of_noRoom hs hdeep]
      exact .left rfl _ _
    | succ room =>
      rw [runCommand_of_enter hs hdeep, hcount]
      -- The body runs one level deeper on the one side, and one command is counted already.
      refine .replay (fun k k' hk => .runAll (fun c _ l l' hl => ?_) hk) _
        ⟨hready.turtle, hready.canvas, hready.bindings, hready.steps⟩
      exact hl.runCommand limits room (room + 1) (depth + 1) depth c

/-- In a state in which no comment waits, a loop or a call that no guard stops, be it run or unrolled,
ends like its body written out as often as it runs: both come to their end or both fail in the same
way and on the same line, with the same turtle, drawing and bindings, and with one more command
counted for the loop or the call itself. -/
theorem runCommand_unrolled {limits : Limits} {room depth : Nat} {command : Command} {m : Machine}
    {n : Int} {body : List Command} (hsettled : m.canvas.queue.waiting = [])
    (hunrolls : m.Unrolls command n body)
    (hlooped : (runCommand limits room depth command m).failsBy Failure.isGuard = false)
    (hunrolled : (runAll (runCommand limits room depth) (List.replicate n.toNat body).flatten
      m).failsBy Failure.isGuard = false) :
    Outcome.Agree (fun _ => false) (fun _ => false) Machine.Ahead
      (runCommand limits room depth command m)
      (runAll (runCommand limits room depth) (List.replicate n.toNat body).flatten m) := by
  have hagree : Outcome.Agree Failure.isGuard Failure.isGuard Machine.Ahead
      (runCommand limits room depth command m)
      (runAll (runCommand limits room depth) (List.replicate n.toNat body).flatten m) := by
    rw [runAll_copies]
    exact hunrolls.agree hsettled
  exact hagree.spare hlooped hunrolled

/-- A stored list that binds the name it reads to a list, so that the second of three rounds fails. -/
theorem unrolled_of_rebinding_list :
    let text := "SETX :x; MAKE \"x [HOME]".toList
    let m := ((Machine.start 40 []).bind "x".toList (.number 1)).bind "a".toList (.list text)
    let command : Command := ⟨.repeatNamed (.number 3) "a".toList, 5⟩
    let body := (parse 5 text).commands.map (·.relocate 5)
    (runCommand {} 10 0 command m).failsBy
        (· = .script (.eval (.lookup (.listAsNumber "x".toList))) 5) = true ∧
      Outcome.Agree (fun _ => false) (fun _ => false) Machine.Ahead (runCommand {} 10 0 command m)
        (runAll (runCommand {} 10 0) (List.replicate 3 body).flatten m) := by
  intro text m command body
  have hfinite : Float.isFinite 3 = true := by decide +kernel
  have hvalue : (Expr.number 3).evaluate m.bindings = .ok 3 := by
    simp only [Expr.evaluate, Expr.eval, hfinite, if_true]
  have hrounds : floorInt 3 = .ok 3 :=
    floorInt_eq_ok (d := ⟨false, 6755399441055744, -51⟩) (by decide +kernel)
  have hbound : m.bindings.find? "a".toList = some (.list text) := Bindings.find?_set_self ..
  have hstored : m.bindings.list "a".toList = .ok text := by
    simp only [Bindings.list, hbound]
  have hunrolls : m.Unrolls command 3 body :=
    .namedLoop hvalue hrounds hstored (by decide +kernel)
  exact ⟨by decide +kernel,
    runCommand_unrolled rfl hunrolls (by decide +kernel) (by decide +kernel)⟩

end TurtleTrace
