import TurtleTrace.Machine.Run

/-!
# What one command can change

An action that is done with at once changes the machine in one of ten ways, and a loop or a call that
is entered changes nothing but the trace. `Machine.change_of_act` and `Machine.entry_of_act` say so
once, and every invariant of runs is proved over these cases.

* `Machine.noteOf`: the note that an action writes.
* `Machine.Change`: the ways in which an action changes the machine.
* `Machine.Entry`: the body that a loop or a call runs.
-/

namespace TurtleTrace

set_option autoImplicit false

/-! ## Actions -/

/-- Whether an action leaves the comments alone: it writes no note, does not move the pen and traces
no arc. -/
def Action.isSilent : Action → Bool
  | penUp | penDown | arc _ _ | print _ | notePosition _ | marker _ _ => false
  | _ => true

/-- The name of the stored list that an action runs, if it runs one. -/
def Action.listName? : Action → Option Text
  | repeatNamed _ name => some name
  | call name => some name
  | _ => none

/-- Whether commands of this kind write a note. -/
def Kind.writesNote : Kind → Bool
  | print | extcommentpos | extmarker => true
  | _ => false

namespace Machine

/-- The note that an action writes in a given state, if it writes one. -/
def noteOf (m : Machine) : Action → Option Text
  | .print items =>
    match printTexts m.bindings items with
    | .error _ => none
    | .ok texts => some ("// ".toList ++ Text.join [' '] texts)
  | .notePosition label => some (positionNote (labelOr "Position" label) m.turtle.position)
  | .marker label none => some (positionNote (labelOr "Marker" label) m.turtle.position)
  | .marker label (some (e, f)) =>
    match e.evaluate m.bindings, f.evaluate m.bindings with
    | .ok x, .ok y => some (positionNote (labelOr "Marker" label) ⟨x, y⟩)
    | _, _ => none
  | _ => none

theorem noteOf_of_isSilent (m : Machine) {action : Action} (h : action.isSilent = true) :
    m.noteOf action = none := by
  cases action with
  | print _ => cases h
  | notePosition _ => cases h
  | marker _ _ => cases h
  | _ => rfl

/-! ## The cases -/

/-- The ways in which an action that is done with at once changes the machine. -/
inductive Change (m : Machine) (line : Int) : Action → Machine → Prop where
  | skip {action : Action} (silent : action.isSilent = true)
      (still : action.kind.makesPoint = false) : Change m line action m
  | bind {action : Action} (silent : action.isSilent = true) (name : Text) (value : Value)
      (still : action.kind.makesPoint = false) : Change m line action (m.bind name value)
  | steer {action : Action} (silent : action.isSilent = true) (t : Turtle)
      (position : t.position = m.turtle.position) (pen : t.penDown = m.turtle.penDown)
      (groups : t.arcGroups = m.turtle.arcGroups) (still : action.kind.makesPoint = false) :
      Change m line action { m with turtle := t }
  | move {action : Action} (silent : action.isSilent = true) (p : Point)
      (moves : action.kind.makesPoint = true) : Change m line action (m.lineTo p line)
  | home : Change m line .home ((m.lineTo .origin line).onTurtle (·.setHeading 0))
  | penUp : Change m line .penUp (m.penUp line)
  | penDown : Change m line .penDown (m.penDown line)
  | flatArc {e f : Expr} {angle radius : Float} (angleOk : e.evaluate m.bindings = .ok angle)
      (radiusOk : f.evaluate m.bindings = .ok radius)
      (flat : (angle == 0 || radius == 0) = true) : Change m line (.arc e f) m
  | arc {e f : Expr} {angle radius : Float} {vertices : Array Point}
      (angleOk : e.evaluate m.bindings = .ok angle) (radiusOk : f.evaluate m.bindings = .ok radius)
      (curved : (angle == 0 || radius == 0) = false)
      (verticesOk : arcVertices m.turtle.position m.turtle.heading angle radius m.turtle.resolution =
        .ok vertices) :
      Change m line (.arc e f) (m.traceArc vertices angle radius line)
  | note {action : Action} {text : Text} (written : m.noteOf action = some text) :
      Change m line action (m.placeNote text line)
  | marker {label : Option Text} {place : Option (Expr × Expr)} {p : Point} {text : Text}
      (written : m.noteOf (.marker label place) = some text) :
      Change m line (.marker label place)
        ((m.onCanvas (·.onDrawing (·.addMarker p label))).placeNote text line)

/-- The body that a loop or a call reads and asks a frame for. The commands of a stored list are
attributed to the line that runs it. -/
inductive Entry (m : Machine) (line : Int) : Action → Frame → List Command → Machine → Prop where
  | loop {count : Expr} {text : Text} {bodyLine n : Int}
      (readable : (parse bodyLine text).diagnostics = []) :
      Entry m line (.repeatBody count text bodyLine) ⟨.repeat, line, none, n⟩
        (parse bodyLine text).commands (m.record (parse bodyLine text).event)
  | list {action : Action} {name text : Text} {kind : Kind} {n : Int}
      (runs : action.listName? = some name) (stored : m.bindings.list name = .ok text)
      (readable : (parse line text).diagnostics = []) :
      Entry m line action ⟨kind, line, some name, n⟩
        ((parse line text).commands.map (·.relocate line)) (m.record (parse line text).event)

/-! ## Taking the combinators apart -/

variable {m m' : Machine} {line : Int} {s : Step}

theorem withValue_eq {e : Expr} {next : Float → Step} (hs : ∀ failure m, s ≠ .failed failure m)
    (h : m.withValue line e next = s) : ∃ v, e.evaluate m.bindings = .ok v ∧ next v = s := by
  unfold withValue at h
  split at h
  · exact absurd h.symm (hs _ _)
  · rename_i v hv
    exact ⟨v, hv, h⟩

theorem withResult_eq {α : Type} {result : Except ArithmeticFault α} {next : α → Step}
    (hs : ∀ failure m, s ≠ .failed failure m) (h : m.withResult result next = s) :
    ∃ a, result = .ok a ∧ next a = s := by
  unfold withResult at h
  split at h
  · exact absurd h.symm (hs _ _)
  · rename_i a
    exact ⟨a, rfl, h⟩

theorem withBody_eq {firstLine : Int} {text : Text} {next : List Command → Machine → Step}
    (hs : ∀ failure m, s ≠ .failed failure m) (h : m.withBody firstLine text next = s) :
    (parse firstLine text).diagnostics = [] ∧
      next (parse firstLine text).commands (m.record (parse firstLine text).event) = s := by
  simp only [withBody] at h
  split at h
  · rename_i hd
    exact ⟨hd, h⟩
  · exact absurd h.symm (hs _ _)

theorem withStored_eq {name : Text} {next : List Command → Machine → Step}
    (hs : ∀ failure m, s ≠ .failed failure m) (h : m.withStored line name next = s) :
    ∃ text, m.bindings.list name = .ok text ∧ (parse line text).diagnostics = [] ∧
      next ((parse line text).commands.map (·.relocate line)) (m.record (parse line text).event) =
        s := by
  unfold withStored at h
  split at h
  · exact absurd h.symm (hs _ _)
  · rename_i text ht
    obtain ⟨hd, hn⟩ := withBody_eq hs h
    exact ⟨text, ht, hd, hn⟩

/-- A loop either has no rounds and is done with, or goes on with a positive number of them. -/
theorem withCount_eq {count : Expr} {next : Int → Step} (hs : ∀ failure m, s ≠ .failed failure m)
    (h : m.withCount line count next = s) : s = .done m ∨ ∃ n, 0 < n ∧ next n = s := by
  obtain ⟨v, -, hv⟩ := withValue_eq hs h
  obtain ⟨n, -, hn⟩ := withResult_eq hs hv
  split at hn
  · exact .inl hn.symm
  · rename_i hpos
    exact .inr ⟨n, by omega, hn⟩

/-! ## Every action is one of the cases -/

theorem change_of_print {items : List PrintItem} (h : m.print items line = .done m') :
    Change m line (.print items) m' := by
  unfold print at h
  split at h
  · cases h
  · rename_i texts ht
    cases h
    exact .note (by simp only [noteOf, ht])

theorem change_of_setResolution {e : Expr} {v : Float}
    (h : m.setResolution v line = .done m') : Change m line (.setResolution e) m' := by
  obtain ⟨resolution, -, hr⟩ := withResult_eq (by simp) h
  split at hr
  · cases hr
  · cases hr
    exact .steer rfl _ rfl rfl rfl rfl

theorem change_of_arc {e f : Expr} {angle radius : Float}
    (he : e.evaluate m.bindings = .ok angle) (hf : f.evaluate m.bindings = .ok radius)
    (h : m.arc angle radius line = .done m') : Change m line (.arc e f) m' := by
  unfold arc at h
  split at h
  · rename_i hz
    cases h
    exact .flatArc he hf hz
  · rename_i hz
    obtain ⟨vertices, hv, hn⟩ := withResult_eq (by simp) h
    cases hn
    exact .arc he hf (by simpa using hz) hv

theorem change_of_act {action : Action} (h : m.act action line = .done m') :
    Change m line action m' := by
  have hs : ∀ failure n, Step.done m' ≠ .failed failure n := fun _ _ => nofun
  cases action with
  | forward e | back e =>
    obtain ⟨v, -, hv⟩ := withValue_eq hs h
    obtain ⟨p, -, hp⟩ := withResult_eq hs hv
    cases hp
    exact .move rfl p rfl
  | left e | right e | setHeading e =>
    obtain ⟨v, -, hv⟩ := withValue_eq hs h
    cases hv
    exact .steer rfl _ rfl rfl rfl rfl
  | setX e | setY e =>
    obtain ⟨v, -, hv⟩ := withValue_eq hs h
    cases hv
    exact .move rfl _ rfl
  | setXY e f =>
    obtain ⟨x, -, hx⟩ := withValue_eq hs h
    obtain ⟨y, -, hy⟩ := withValue_eq hs hx
    cases hy
    exact .move rfl _ rfl
  | home =>
    cases h
    exact .home
  | penUp =>
    cases h
    exact .penUp
  | penDown =>
    cases h
    exact .penDown
  | arc e f =>
    obtain ⟨angle, he, ha⟩ := withValue_eq hs h
    obtain ⟨radius, hf, hr⟩ := withValue_eq hs ha
    exact change_of_arc he hf hr
  | makeNumber name e =>
    obtain ⟨v, -, hv⟩ := withValue_eq hs h
    cases hv
    exact .bind rfl _ _ rfl
  | makeList name body =>
    cases h
    exact .bind rfl _ _ rfl
  | repeatBody count body bodyLine =>
    obtain hd | ⟨n, -, hn⟩ := withCount_eq hs h
    · cases hd
      exact .skip rfl rfl
    · obtain ⟨-, hb⟩ := withBody_eq hs hn
      cases hb
  | repeatNamed count name =>
    obtain hd | ⟨n, -, hn⟩ := withCount_eq hs h
    · cases hd
      exact .skip rfl rfl
    · obtain ⟨text, -, -, hb⟩ := withStored_eq hs hn
      cases hb
  | call name =>
    obtain ⟨text, -, -, hb⟩ := withStored_eq hs h
    cases hb
  | print items => exact change_of_print h
  | setResolution e =>
    obtain ⟨v, -, hv⟩ := withValue_eq hs h
    exact change_of_setResolution hv
  | notePosition label =>
    cases h
    exact .note rfl
  | marker label place =>
    cases place with
    | none =>
      cases h
      exact .marker rfl
    | some place =>
      obtain ⟨e, f⟩ := place
      obtain ⟨x, hx, hn⟩ := withValue_eq hs h
      obtain ⟨y, hy, hn⟩ := withValue_eq hs hn
      cases hn
      exact .marker (by simp only [noteOf, hx, hy])

theorem entry_of_act {action : Action} {frame : Frame} {body : List Command}
    (h : m.act action line = .enter frame body m') : Entry m line action frame body m' := by
  have hs : ∀ failure n, Step.enter frame body m' ≠ .failed failure n := fun _ _ => nofun
  cases action with
  | repeatBody count text bodyLine =>
    obtain hd | ⟨n, -, hn⟩ := withCount_eq hs h
    · cases hd
    · obtain ⟨hreadable, hb⟩ := withBody_eq hs hn
      cases hb
      exact .loop hreadable
  | repeatNamed count name =>
    obtain hd | ⟨n, -, hn⟩ := withCount_eq hs h
    · cases hd
    · obtain ⟨text, hstored, hreadable, hb⟩ := withStored_eq hs hn
      cases hb
      exact .list rfl hstored hreadable
  | call name =>
    obtain ⟨text, hstored, hreadable, hb⟩ := withStored_eq hs h
    cases hb
    exact .list rfl hstored hreadable
  -- No other action asks for a frame.
  | forward e | back e =>
    obtain ⟨v, -, hv⟩ := withValue_eq hs h
    obtain ⟨p, -, hp⟩ := withResult_eq hs hv
    cases hp
  | left e | right e | setHeading e | setX e | setY e | makeNumber name e =>
    obtain ⟨v, -, hv⟩ := withValue_eq hs h
    cases hv
  | setXY e f =>
    obtain ⟨x, -, hx⟩ := withValue_eq hs h
    obtain ⟨y, -, hy⟩ := withValue_eq hs hx
    cases hy
  | arc e f =>
    obtain ⟨angle, -, ha⟩ := withValue_eq hs h
    obtain ⟨radius, -, hr⟩ := withValue_eq hs ha
    unfold arc at hr
    split at hr
    · cases hr
    · obtain ⟨vertices, -, hv⟩ := withResult_eq hs hr
      cases hv
  | print items =>
    simp only [act, print] at h
    split at h <;> cases h
  | setResolution e =>
    obtain ⟨v, -, hv⟩ := withValue_eq hs h
    obtain ⟨resolution, -, hr⟩ := withResult_eq hs hv
    split at hr <;> cases hr
  | marker label place =>
    cases place with
    | none => cases h
    | some place =>
      obtain ⟨x, -, hx⟩ := withValue_eq hs h
      obtain ⟨y, -, hy⟩ := withValue_eq hs hx
      cases hy
  | home | penUp | penDown | makeList name body | notePosition label => cases h

/-- A loop or a call that is entered has only read its body. -/
theorem trace_of_act {action : Action} {frame : Frame} {body : List Command}
    (h : m.act action line = .enter frame body m') :
    action.isSilent = true ∧ action.kind.makesPoint = false ∧ ∃ event, m' = m.record event := by
  cases entry_of_act h with
  | loop => exact ⟨rfl, rfl, _, rfl⟩
  | list runs =>
    cases action with
    | repeatNamed | call => exact ⟨rfl, rfl, _, rfl⟩
    | _ => cases runs

/-! ## What the operations on the canvas leave alone -/

/-- What lifting the pen does apart from the canvas. -/
theorem frame_penUp (m : Machine) (line : Int) :
    (m.penUp line).turtle =
        (if m.turtle.penDown then m.turtle.setPen false else m.turtle) ∧
      (m.penUp line).bindings = m.bindings ∧ (m.penUp line).steps = m.steps := by
  unfold penUp
  split
  · exact ⟨rfl, rfl, rfl⟩
  · exact ⟨rfl, rfl, rfl⟩

/-- What putting the pen down does apart from the canvas. -/
theorem frame_penDown (m : Machine) (line : Int) :
    (m.penDown line).turtle =
        (if m.turtle.penDown then m.turtle else m.turtle.setPen true) ∧
      (m.penDown line).bindings = m.bindings ∧ (m.penDown line).steps = m.steps := by
  unfold penDown
  split
  · exact ⟨rfl, rfl, rfl⟩
  · exact ⟨rfl, rfl, rfl⟩

theorem frame_placeNote (m : Machine) (line : Int) (text : Text) :
    (m.placeNote text line).turtle = m.turtle ∧ (m.placeNote text line).bindings = m.bindings ∧
      (m.placeNote text line).steps = m.steps := by
  unfold placeNote
  split
  · exact ⟨rfl, rfl, rfl⟩
  · exact ⟨rfl, rfl, rfl⟩

end Machine

/-! ## The end of a run -/

/-- A run ends with a seed without comments that is dropped, or with all comments placed and the open
polygon finished, which is a comment alone if nothing has been traced or pinned. -/
theorem Canvas.finish_cases (c : Canvas) :
    (∃ p, c.drawing.current = some p ∧ p.isSeed = true ∧ p.free = #[] ∧ p.pinned = #[] ∧
      c.queue.waiting = [] ∧ c.finish = c.onDrawing fun d => { d with current := none }) ∨
    ∃ untraced : Bool,
      (∀ p, c.drawing.current = some p → p.isSeed = true → p.free = #[] → p.pinned = #[] →
        c.queue.waiting ≠ []) ∧
      untraced = c.flushAll.drawing.current.any (fun p => p.isSeed && p.pinned.isEmpty) ∧
      c.finish = c.flushAll.onDrawing (·.finishPolygon untraced none) := by
  by_cases hu : ∃ p, c.drawing.current = some p ∧
      (p.isSeed && p.free.isEmpty && p.pinned.isEmpty && !c.queue.hasRemaining) = true
  · obtain ⟨p, hc, hu⟩ := hu
    have hparts := hu
    simp only [Bool.and_eq_true, Array.isEmpty_iff, CommentQueue.hasRemaining, Bool.not_not,
      List.isEmpty_iff] at hparts
    obtain ⟨⟨⟨hseed, hfree⟩, hpinned⟩, hq⟩ := hparts
    exact .inl ⟨p, hc, hseed, hfree, hpinned, hq, by simp only [finish, hc, hu, if_true]⟩
  · unfold finish
    refine .inr ⟨_, ?_, ?_, if_neg ?_⟩
    · intro p hp hseed hfree hpinned hq
      exact hu ⟨p, hp, by simp [hseed, hfree, hpinned, CommentQueue.hasRemaining, hq]⟩
    · cases c.flushAll.drawing.current <;> rfl
    · intro huntouched
      split at huntouched
      · cases huntouched
      · rename_i p hp
        exact hu ⟨p, hp, huntouched⟩

end TurtleTrace
