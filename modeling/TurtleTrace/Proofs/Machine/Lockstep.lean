import TurtleTrace.Proofs.Arc
import TurtleTrace.Proofs.Machine.Agreement
import TurtleTrace.Proofs.Machine.Journal

/-!
# The same commands in two states

Two runs of the same commands go in step as long as their states stay related. A relation that
everything an action does to turtle, bindings and canvas respects is respected by the action
(`Machine.Respects.act`), and what starting a command respects is respected by whole runs
(`agree_runCommands_marked`). The relation may be indexed by a number that grows with each marked
command of the second run.
-/

namespace TurtleTrace

set_option autoImplicit false

/-! ## Relations that actions respect -/

/-- Related states have the same turtle and the same bindings, and stay related whatever an action does
to both. -/
structure Machine.Respects (R : Machine → Machine → Prop) : Prop where
  turtle {m m' : Machine} (h : R m m') : m.turtle = m'.turtle
  bindings {m m' : Machine} (h : R m m') : m.bindings = m'.bindings
  record {m m' : Machine} (h : R m m') (event : Event) : R (m.record event) (m'.record event)
  bind {m m' : Machine} (h : R m m') (name : Text) (value : Value) :
    R (m.bind name value) (m'.bind name value)
  steer {m m' : Machine} (h : R m m') (f : Turtle → Turtle)
    (position : ∀ t, (f t).position = t.position) (pen : ∀ t, (f t).penDown = t.penDown) :
    R (m.onTurtle f) (m'.onTurtle f)
  lineTo {m m' : Machine} (h : R m m') (p : Point) (line : Int) :
    R (m.lineTo p line) (m'.lineTo p line)
  penUp {m m' : Machine} (h : R m m') (line : Int) : R (m.penUp line) (m'.penUp line)
  penDown {m m' : Machine} (h : R m m') (line : Int) : R (m.penDown line) (m'.penDown line)
  traceArc {m m' : Machine} (h : R m m') {vertices : Array Point} (size : 2 ≤ vertices.size)
    (angle radius : Float) (line : Int) :
    R (m.traceArc vertices angle radius line) (m'.traceArc vertices angle radius line)
  mark {m m' : Machine} (h : R m m') (p : Point) (label : Option Text) :
    R (m.onCanvas (·.onDrawing (·.addMarker p label)))
      (m'.onCanvas (·.onDrawing (·.addMarker p label)))
  placeNote {m m' : Machine} (h : R m m') (text : Text) (line : Int) :
    R (m.placeNote text line) (m'.placeNote text line)

namespace Machine.Respects

variable {R : Machine → Machine → Prop} {excused excused' : Failure → Bool} {m m' : Machine}

theorem moveAlong (hR : Respects R) (h : R m m') (distance : Float) (line : Int) :
    Step.Agree excused excused' R (m.moveAlong distance line) (m'.moveAlong distance line) := by
  unfold Machine.moveAlong
  rw [hR.turtle h]
  exact .withResult h _ fun p => .done (hR.lineTo h p line)

theorem arc (hR : Respects R) (h : R m m') (angle radius : Float) (line : Int) :
    Step.Agree excused excused' R (m.arc angle radius line) (m'.arc angle radius line) := by
  unfold Machine.arc
  rw [hR.turtle h]
  split
  · exact .done h
  · unfold Machine.withResult
    split
    · exact .failed _ h
    · rename_i vertices hv
      exact .done (hR.traceArc h (two_le_size_arcVertices hv) angle radius line)

theorem setResolution (hR : Respects R) (h : R m m') (value : Float) (line : Int) :
    Step.Agree excused excused' R (m.setResolution value line) (m'.setResolution value line) := by
  refine .withResult h _ fun resolution => ?_
  split
  · exact .failed _ h
  · exact .done (hR.steer h _ (fun _ => rfl) fun _ => rfl)

theorem print (hR : Respects R) (h : R m m') (items : List PrintItem) (line : Int) :
    Step.Agree excused excused' R (m.print items line) (m'.print items line) := by
  unfold Machine.print
  rw [hR.bindings h]
  split
  · exact .failed _ h
  · exact .done (hR.placeNote h _ line)

theorem addMarker (hR : Respects R) (h : R m m') (label : Option Text) (p : Point) (line : Int) :
    R (m.addMarker label p line) (m'.addMarker label p line) :=
  hR.placeNote (hR.mark h p label) _ line

/-- An action does the same in related states. -/
theorem act (hR : Respects R) (h : R m m') (action : Action) (line : Int) :
    Step.Agree excused excused' R (m.act action line) (m'.act action line) := by
  have hb := hR.bindings h
  cases action with
  | forward e | back e => exact .withValue h hb e fun v => hR.moveAlong h _ line
  | left e | right e | setHeading e =>
    exact .withValue h hb e fun v => .done (hR.steer h _ (fun _ => rfl) fun _ => rfl)
  | setX e | setY e =>
    unfold Machine.act
    rw [hR.turtle h]
    exact .withValue h hb e fun v => .done (hR.lineTo h _ line)
  | setXY e f =>
    exact .withValue h hb e fun x => .withValue h hb f fun y => .done (hR.lineTo h ⟨x, y⟩ line)
  | home => exact .done (hR.steer (hR.lineTo h .origin line) _ (fun _ => rfl) fun _ => rfl)
  | penUp => exact .done (hR.penUp h line)
  | penDown => exact .done (hR.penDown h line)
  | arc e f =>
    exact .withValue h hb e fun angle => .withValue h hb f fun radius => hR.arc h angle radius line
  | makeNumber name e => exact .withValue h hb e fun v => .done (hR.bind h name _)
  | makeList name body => exact .done (hR.bind h name _)
  | repeatBody count body bodyLine =>
    exact .withCount h hb count fun n => .withBody (hR.record h) bodyLine body
      fun commands event => .enter _ commands (hR.record h event)
  | repeatNamed count name =>
    exact .withCount h hb count fun n => .withStored h hb (hR.record h) name
      fun commands event => .enter _ commands (hR.record h event)
  | call name =>
    exact .withStored h hb (hR.record h) name fun commands event =>
      .enter _ commands (hR.record h event)
  | print items => exact hR.print h items line
  | setResolution e => exact .withValue h hb e fun v => hR.setResolution h v line
  | notePosition label =>
    unfold Machine.act Machine.notePosition
    rw [hR.turtle h]
    exact .done (hR.placeNote h _ line)
  | marker label place =>
    cases place with
    | none =>
      unfold Machine.act
      rw [hR.turtle h]
      exact .done (hR.addMarker h label _ line)
    | some place =>
      exact .withValue h hb place.1 fun x => .withValue h hb place.2 fun y =>
        .done (hR.addMarker h label ⟨x, y⟩ line)

end Machine.Respects

/-! ## Runs -/

section Runs

variable {limits : Limits} (marked : Visit → Bool) {excused excused' : Failure → Bool}
variable {R : Nat → Machine → Machine → Prop} {k : Nat} {m m' : Machine}

theorem agree_runAll_marked {run : Command → Machine → Outcome}
    {visits : Command → Machine → List Visit}
    (h : ∀ command k m m', R k m m' →
      Outcome.Agree excused excused' (R (k + (visits command m').countP marked)) (run command m)
        (run command m'))
    (commands : List Command) (hm : R k m m') :
    Outcome.Agree excused excused' (R (k + (visitsAll run visits commands m').countP marked))
      (runAll run commands m) (runAll run commands m') := by
  induction commands generalizing k m m' with
  | nil => exact .done hm
  | cons command rest ih =>
    have hfirst := h command k m m' hm
    unfold runAll visitsAll
    generalize run command m = o at hfirst
    generalize run command m' = o' at hfirst
    cases hfirst with
    | done hn =>
      rw [List.countP_append, ← Nat.add_assoc]
      exact ih hn
    | failed failure hn => exact .failed failure hn
    | left he n o' => exact .left he n _
    | right he o n => exact .right he _ n

theorem agree_replay_marked {run : Machine → Outcome} {visits : Machine → List Visit}
    (h : ∀ k m m', R k m m' →
      Outcome.Agree excused excused' (R (k + (visits m').countP marked)) (run m) (run m'))
    (n : Nat) (hm : R k m m') :
    Outcome.Agree excused excused' (R (k + (visitsReplay run visits n m').countP marked))
      (replay run n m) (replay run n m') := by
  induction n generalizing k m m' with
  | zero => exact .done hm
  | succ n ih =>
    have hfirst := h k m m' hm
    unfold replay visitsReplay
    generalize run m = o at hfirst
    generalize run m' = o' at hfirst
    cases hfirst with
    | done hn =>
      rw [List.countP_append, ← Nat.add_assoc]
      exact ih hn
    | failed failure hn => exact .failed failure hn
    | left he l o' => exact .left he l _
    | right he o l => exact .right he _ l

/-- Runs of one command stay in step if starting a command does and entering a frame does. -/
theorem agree_runCommand_marked
    (hstart : ∀ command k m m', R k m m' →
      Step.Agree excused excused' (R (k + [(⟨command, m'⟩ : Visit)].countP marked))
        (startCommand limits command m) (startCommand limits command m'))
    (hrecord : ∀ event k m m', R k m m' → R k (m.record event) (m'.record event))
    (room depth : Nat) (command : Command) {k : Nat} {m m' : Machine} (hm : R k m m') :
    Outcome.Agree excused excused' (R (k + (visitsOf limits room depth command m').countP marked))
      (runCommand limits room depth command m) (runCommand limits room depth command m') := by
  have hfirst := hstart command k m m' hm
  generalize hs : startCommand limits command m = s at hfirst
  generalize hs' : startCommand limits command m' = s' at hfirst
  cases hfirst with
  | done hn =>
    rw [runCommand_of_done hs, runCommand_of_done hs', visitsOf_of_done hs']
    exact .done hn
  | failed failure hn =>
    rw [runCommand_of_failed hs, runCommand_of_failed hs', visitsOf_of_failed hs']
    exact .failed failure hn
  | left he n =>
    rw [runCommand_of_failed hs]
    exact .left he n _
  | right he _ n =>
    rw [runCommand_of_failed hs']
    exact .right he _ n
  | enter frame body hn =>
    by_cases hdeep : limits.callDepth ≤ depth
    · rw [runCommand_of_tooDeep hs hdeep, runCommand_of_tooDeep hs' hdeep,
        visitsOf_of_tooDeep hs' hdeep]
      exact .failed _ hn
    cases room with
    | zero =>
      rw [runCommand_of_noRoom hs hdeep, runCommand_of_noRoom hs' hdeep, visitsOf_of_noRoom hs' hdeep]
      exact .failed _ hn
    | succ room =>
      rw [runCommand_of_enter hs hdeep, runCommand_of_enter hs' hdeep, visitsOf_of_enter hs' hdeep,
        ← List.singleton_append, List.countP_append, ← Nat.add_assoc]
      refine agree_replay_marked marked (fun k n n' hk => ?_) _ (hrecord _ _ _ _ hn)
      refine agree_runAll_marked marked (fun c k l l' hl => ?_) body hk
      exact agree_runCommand_marked hstart hrecord room (depth + 1) c hl

theorem agree_runCommands_marked
    (hstart : ∀ command k m m', R k m m' →
      Step.Agree excused excused' (R (k + [(⟨command, m'⟩ : Visit)].countP marked))
        (startCommand limits command m) (startCommand limits command m'))
    (hrecord : ∀ event k m m', R k m m' → R k (m.record event) (m'.record event))
    (commands : List Command) (hm : R k m m') :
    Outcome.Agree excused excused' (R (k + (journal limits commands m').countP marked))
      (runCommands limits commands m) (runCommands limits commands m') :=
  agree_runAll_marked marked
    (fun c _ _ _ hc => agree_runCommand_marked marked hstart hrecord limits.nesting 0 c hc) commands hm

end Runs

end TurtleTrace
