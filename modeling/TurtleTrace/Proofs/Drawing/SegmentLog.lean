import TurtleTrace.Proofs.Drawing.Lifecycle

/-!
# The order of the segment log

At every point of a run the segments are numbered in the order of the log, and the number that is next
is the length of the log. The straight ones are one path from the origin to the turtle, whatever pen
changes, arcs and loops come between them. Each arc that was traced is a block of the log with a group
number of its own, counted from one.

* `Connects`: a row of segments without a gap.
* `Visit.arcSize?`: the number of segments of the arc that a command traces.
* `Logs`: what one command adds to the log.
* `HoldsArc`: the block of one arc in the log.
* `Logged`: the invariant of runs.
-/

namespace TurtleTrace

set_option autoImplicit false

/-! ## Rows of segments -/

/-- Segments that lead from one point to another, each from where the one before it ends. -/
def Connects (p : Point) (row : List Segment) (q : Point) : Prop :=
  ∃ points, Follows row points ∧ points.head? = some p ∧ points.getLast? = some q

theorem Connects.nil (p : Point) : Connects p [] p := ⟨[p], follows_single p, rfl, rfl⟩

theorem Connects.snoc {p : Point} {row : List Segment} {s : Segment} (h : Connects p row s.start) :
    Connects p (row ++ [s]) s.stop := by
  obtain ⟨points, hfollows, hhead, hlast⟩ := h
  refine ⟨points ++ [s.stop], hfollows.snoc hlast, ?_, List.getLast?_concat⟩
  rw [List.head?_append, hhead]
  rfl

/-- The segments of an arc go from vertex to vertex. -/
theorem follows_arcChain (line : Int) (penDown : Bool) (group : Int) (id : Nat) (p : Point)
    (rest : List Point) : Follows (arcChain line penDown group id (p :: rest)) (p :: rest) := by
  induction rest generalizing p id with
  | nil => exact follows_single p
  | cons q rest ih =>
    obtain ⟨hlength, hsteps⟩ := ih (id + 1) q
    refine ⟨by rw [arcChain, List.length_cons, hlength, List.length_cons], fun i s hs => ?_⟩
    rw [arcChain] at hs
    cases i with
    | zero =>
      cases hs
      exact ⟨rfl, rfl⟩
    | succ i => exact hsteps i s hs

theorem map_id_arcChain (line : Int) (penDown : Bool) (group : Int) (id : Nat)
    (vertices : List Point) :
    (arcChain line penDown group id vertices).map (·.id) =
      List.range' id (arcChain line penDown group id vertices).length := by
  induction vertices generalizing id with
  | nil => rfl
  | cons p rest ih =>
    cases rest with
    | nil => rfl
    | cons q rest =>
      rw [arcChain, List.map_cons, ih, List.length_cons, List.range'_succ]

theorem length_arcChain (line : Int) (penDown : Bool) (group : Int) (id : Nat) (p : Point)
    (rest : List Point) : (arcChain line penDown group id (p :: rest)).length = rest.length :=
  Nat.succ.inj (follows_arcChain line penDown group id p rest).1.symm

theorem counter_addArcSegments (line : Int) (penDown : Bool) (group : Int) (p : Point)
    (rest : List Point) (d : Drawing) :
    (Machine.addArcSegments line penDown group (p :: rest) d).counter = d.counter + rest.length := by
  induction rest generalizing p d with
  | nil => rfl
  | cons q rest ih =>
    rw [Machine.addArcSegments, ih, List.length_cons, Nat.add_comm rest.length, ← Nat.add_assoc]
    rfl

/-! ## What a command logs -/

/-- How many segments the arc has that an action traces. An action that is no arc traces none, and
neither does an arc without angle or radius. -/
def Machine.arcSizeOf (m : Machine) : Action → Option Nat
  | .arc e f =>
    match e.evaluate m.bindings, f.evaluate m.bindings with
    | .ok angle, .ok radius =>
      if angle == 0 || radius == 0 then none
      else (arcSteps angle m.turtle.resolution).toOption
    | _, _ => none
  | _ => none

def Visit.arcSize? (v : Visit) : Option Nat := v.before.arcSizeOf v.command.action

/-- What a command on a line adds to the log and to the counter of segments: nothing, the line along
which the turtle moves, or an arc of a given number of segments around the turtle. -/
inductive Logs (t : Turtle) (counter : Nat) (log : List Segment) (line : Int) :
    Option Nat → Turtle → Nat → List Segment → Prop where
  | nothing {t' : Turtle} (position : t'.position = t.position)
      (groups : t'.arcGroups = t.arcGroups) : Logs t counter log line none t' counter log
  | line {t' : Turtle} (groups : t'.arcGroups = t.arcGroups) :
      Logs t counter log line none t' (counter + 1)
        (log ++ [⟨counter, line, t.position, t'.position, t.penDown, none⟩])
  | arc (p : Point) {rest : List Point} (nonempty : rest ≠ []) :
      Logs t counter log line (some rest.length) t.openArcGroup (counter + rest.length)
        (log ++ arcChain line t.penDown (t.arcGroups + 1 : Nat) counter (p :: rest))

namespace Machine

variable {m m' : Machine} {line : Int} {action : Action}

theorem arcSizeOf_of_kind (m : Machine) (h : action.kind ≠ .arc) : m.arcSizeOf action = none := by
  unfold arcSizeOf
  split
  · exact absurd rfl h
  · rfl

theorem arcSizeOf_of_isSilent (m : Machine) (h : action.isSilent = true) :
    m.arcSizeOf action = none := by
  refine m.arcSizeOf_of_kind ?_
  cases action with
  | arc e f => cases h
  | _ => exact nofun

theorem arcSizeOf_of_noteOf {text : Text} (h : m.noteOf action = some text) :
    m.arcSizeOf action = none := by
  refine m.arcSizeOf_of_kind ?_
  cases action with
  | arc e f => cases h
  | _ => exact nofun

theorem logs_of_log (hsize : m.arcSizeOf action = none) (hlog : m'.drawing.log = m.drawing.log)
    (hposition : m'.turtle.position = m.turtle.position)
    (hgroups : m'.turtle.arcGroups = m.turtle.arcGroups) :
    Logs m.turtle m.drawing.counter m.drawing.segments.toList line (m.arcSizeOf action) m'.turtle
      m'.drawing.counter m'.drawing.segments.toList := by
  rw [hsize, Drawing.segments_of_log hlog, Drawing.counter_of_log hlog]
  exact .nothing hposition hgroups

theorem logs_lineTo (hsize : m.arcSizeOf action = none) (p : Point) (t : Turtle)
    (hposition : t.position = p) (hgroups : t.arcGroups = m.turtle.arcGroups) :
    Logs m.turtle m.drawing.counter m.drawing.segments.toList line (m.arcSizeOf action) t
      (m.lineTo p line).drawing.counter (m.lineTo p line).drawing.segments.toList := by
  have hlog := m.log_lineTo p line
  rw [hsize, Drawing.segments_of_log hlog, Drawing.counter_of_log hlog, ← hposition]
  have hadded : (m.drawing.addSegment m.turtle.position t.position line m.turtle.penDown
      none).segments.toList = m.drawing.segments.toList ++
        [⟨m.drawing.counter, line, m.turtle.position, t.position, m.turtle.penDown, none⟩] :=
    Array.toList_push
  rw [hadded]
  exact .line hgroups

theorem logs_traceArc {e f : Expr} {angle radius : Float} {vertices : Array Point}
    (he : e.evaluate m.bindings = .ok angle) (hf : f.evaluate m.bindings = .ok radius)
    (hcurved : (angle == 0 || radius == 0) = false)
    (hvertices : arcVertices m.turtle.position m.turtle.heading angle radius m.turtle.resolution =
      .ok vertices) :
    Logs m.turtle m.drawing.counter m.drawing.segments.toList line (m.arcSizeOf (.arc e f))
      (m.traceArc vertices angle radius line).turtle
      (m.traceArc vertices angle radius line).drawing.counter
      (m.traceArc vertices angle radius line).drawing.segments.toList := by
  obtain ⟨steps, hsteps, hcount⟩ := size_arcVertices hvertices
  have hpos := one_le_arcSteps hsteps
  obtain ⟨p, rest, hlist⟩ : ∃ p rest, vertices.toList = p :: rest :=
    List.exists_cons_of_length_eq_add_one hcount
  have hrest : rest.length = steps := by
    rw [← Array.length_toList, hlist, List.length_cons] at hcount
    omega
  have hsize : m.arcSizeOf (.arc e f) = some rest.length := by
    simp only [arcSizeOf, he, hf, hcurved, hsteps, hrest]
    rfl
  have hlog := m.log_traceArc vertices angle radius line
  rw [hsize, Drawing.segments_of_log hlog, Drawing.counter_of_log hlog, segments_addArcSegments, hlist,
    counter_addArcSegments]
  refine .arc p ?_
  rintro rfl
  rw [List.length_nil] at hrest
  omega

/-- Every change of the machine logs nothing, a line or an arc. -/
theorem Change.logs (h : m.Change line action m') :
    Logs m.turtle m.drawing.counter m.drawing.segments.toList line (m.arcSizeOf action) m'.turtle
      m'.drawing.counter m'.drawing.segments.toList := by
  cases h with
  | skip silent => exact logs_of_log (m.arcSizeOf_of_isSilent silent) rfl rfl rfl
  | bind silent => exact logs_of_log (m.arcSizeOf_of_isSilent silent) rfl rfl rfl
  | steer silent t position pen groups =>
    exact logs_of_log (m.arcSizeOf_of_isSilent silent) rfl position groups
  | move silent p => exact logs_lineTo (m.arcSizeOf_of_isSilent silent) p _ rfl rfl
  | home => exact logs_lineTo rfl .origin _ rfl rfl
  | penUp =>
    have hturtle := (m.frame_penUp line).1
    refine logs_of_log rfl (m.log_penUp line) ?_ ?_
    · rw [hturtle]
      split <;> rfl
    · rw [hturtle]
      split <;> rfl
  | penDown =>
    have hturtle := (m.frame_penDown line).1
    refine logs_of_log rfl (m.log_penDown line) ?_ ?_
    · rw [hturtle]
      split <;> rfl
    · rw [hturtle]
      split <;> rfl
  | @flatArc e f angle radius he hf hflat =>
    have hsize : m.arcSizeOf (.arc e f) = none := by
      simp only [arcSizeOf, he, hf, hflat, if_true]
    exact logs_of_log hsize rfl rfl rfl
  | arc he hf hcurved hvertices => exact logs_traceArc he hf hcurved hvertices
  | note written =>
    obtain ⟨hturtle, -, -⟩ := m.frame_placeNote line _
    exact logs_of_log (arcSizeOf_of_noteOf written) (m.log_placeNote _ line) (by rw [hturtle])
      (by rw [hturtle])
  | @marker label place p text written =>
    let marked := m.onCanvas (·.onDrawing (·.addMarker p label))
    obtain ⟨hturtle, -, -⟩ := marked.frame_placeNote line text
    have hlog := marked.log_placeNote text line
    rw [arcSizeOf_of_noteOf written, Drawing.segments_of_log hlog, Drawing.counter_of_log hlog]
    exact .nothing (by rw [hturtle]; rfl) (by rw [hturtle]; rfl)

end Machine

theorem Visit.segments_ready (v : Visit) : v.ready.drawing.segments = v.before.drawing.segments :=
  Drawing.segments_of_log v.log_ready

theorem Advance.logs {limits : Limits} {v : Visit} {m : Machine} (h : Advance limits v m) :
    Logs v.before.turtle v.before.drawing.counter v.before.drawing.segments.toList v.command.line
      v.arcSize? m.turtle m.drawing.counter m.drawing.segments.toList := by
  rw [← v.segments_ready, ← Drawing.counter_of_log v.log_ready]
  obtain hc | ⟨hsilent, -, trace, rfl⟩ := h.cases
  · exact hc.logs
  · exact Machine.logs_of_log (v.ready.arcSizeOf_of_isSilent hsilent) rfl rfl rfl

/-! ## Blocks of arcs -/

/-- The segments of a group stand together in a log, behind those of lower groups and before those of
higher ones, and are the arc that a command has traced. -/
def HoldsArc (log : List Segment) (group : Nat) (v : Visit) : Prop :=
  ∃ before arc after, log = before ++ (arc ++ after) ∧
    arc = log.filter (·.arcGroup == some (group : Int)) ∧ arc ≠ [] ∧
    v.arcSize? = some arc.length ∧ (∃ points, Follows arc points) ∧
    (∀ s ∈ arc, s.line = v.command.line ∧ s.penDown = v.before.turtle.penDown) ∧
    (∀ s ∈ before, ∀ g, s.arcGroup = some g → g < group) ∧
    ∀ s ∈ after, ∀ g, s.arcGroup = some g → group < g

theorem filter_eq_nil_of_ne {log : List Segment} {group : Int}
    (h : ∀ s ∈ log, ∀ g, s.arcGroup = some g → g ≠ group) :
    log.filter (·.arcGroup == some group) = [] := by
  rw [List.filter_eq_nil_iff]
  intro s hs hgroup
  exact h s hs group (by simpa using hgroup) rfl

/-- A log may grow by straight segments and by higher groups. -/
theorem HoldsArc.append {log more : List Segment} {group : Nat} {v : Visit}
    (h : HoldsArc log group v) (hmore : ∀ s ∈ more, ∀ g, s.arcGroup = some g → group < g) :
    HoldsArc (log ++ more) group v := by
  obtain ⟨before, arc, after, hlog, hwhole, hne, hsize, hfollows, hcommon, hbefore, hafter⟩ := h
  refine ⟨before, arc, after ++ more, ?_, ?_, hne, hsize, hfollows, hcommon, hbefore, ?_⟩
  · rw [hlog, List.append_assoc, List.append_assoc]
  · rw [List.filter_append, filter_eq_nil_of_ne fun s hs g hg => Int.ne_of_gt (hmore s hs g hg),
      List.append_nil]
    exact hwhole
  · intro s hs g hg
    obtain hs | hs := List.mem_append.mp hs
    · exact hafter s hs g hg
    · exact hmore s hs g hg

/-- An arc that is traced last stands at the end of the log. -/
theorem holdsArc_arcChain {log : List Segment} {v : Visit} {id : Nat} {p : Point}
    {rest : List Point} (hne : rest ≠ []) (hsize : v.arcSize? = some rest.length) {group : Nat}
    (hlog : ∀ s ∈ log, ∀ g, s.arcGroup = some g → g < group) :
    HoldsArc (log ++ arcChain v.command.line v.before.turtle.penDown group id (p :: rest))
      group v := by
  have hfollows := follows_arcChain v.command.line v.before.turtle.penDown group id p rest
  refine ⟨log, arcChain v.command.line v.before.turtle.penDown group id (p :: rest), [], ?_, ?_, ?_,
    ?_, ⟨_, hfollows⟩, fun s hs => ⟨(mem_arcChain hs).1, (mem_arcChain hs).2.1⟩, hlog, nofun⟩
  · rw [List.append_nil]
  · rw [List.filter_append, filter_eq_nil_of_ne fun s hs g hg => Int.ne_of_lt (hlog s hs g hg),
      List.nil_append]
    refine (List.filter_eq_self.mpr fun s hs => ?_).symm
    rw [(mem_arcChain hs).2.2, beq_self_eq_true]
  · refine arcChain_ne_nil ?_
    rw [List.length_cons]
    exact Nat.succ_le_succ (List.length_pos_iff.mpr hne)
  · rw [hsize, length_arcChain]

/-! ## Runs -/

/-- The commands among those started that have traced an arc. -/
def tracedArcs (visits : List Visit) : List Visit := visits.filter (·.arcSize?.isSome)

theorem tracedArcs_of_none (visits : List Visit) {v : Visit} (h : v.arcSize? = none) :
    tracedArcs (visits ++ [v]) = tracedArcs visits := by
  unfold tracedArcs
  rw [List.filter_append, List.filter_singleton, h]
  exact List.append_nil _

theorem tracedArcs_of_some (visits : List Visit) {v : Visit} {n : Nat} (h : v.arcSize? = some n) :
    tracedArcs (visits ++ [v]) = tracedArcs visits ++ [v] := by
  unfold tracedArcs
  rw [List.filter_append, List.filter_singleton, h]
  rfl

/-- The log, its counter and the turtle of a run that has started some commands. The counter is in step
with the log, and segments are numbered by their place. The straight ones lead from the origin to the
turtle. The groups are those of the arcs that were traced, counted from one up to the number that the
turtle keeps. -/
structure Logged (visits : List Visit) (t : Turtle) (counter : Nat) (log : List Segment) : Prop where
  counted : counter = log.length
  ids : log.map (·.id) = List.range log.length
  path : Connects .origin (log.filter (·.arcGroup.isNone)) t.position
  count : (tracedArcs visits).length = t.arcGroups
  groups : ∀ s ∈ log, ∀ g, s.arcGroup = some g → 1 ≤ g ∧ g ≤ t.arcGroups
  arcs : ∀ i v, (tracedArcs visits)[i]? = some v → HoldsArc log (i + 1) v

namespace Logged

variable {visits : List Visit} {v : Visit} {t t' : Turtle} {counter counter' : Nat}
  {log log' : List Segment}

theorem of_start (resolution : Int) : Logged [] (.start resolution) 0 [] where
  counted := rfl
  ids := rfl
  path := .nil .origin
  count := rfl
  groups s hs := absurd hs List.not_mem_nil
  arcs i v hv := by cases hv

theorem nothing (h : Logged visits t counter log) (hsize : v.arcSize? = none)
    (hposition : t'.position = t.position) (hgroups : t'.arcGroups = t.arcGroups) :
    Logged (visits ++ [v]) t' counter log := by
  have htraced := tracedArcs_of_none visits hsize
  refine ⟨h.counted, h.ids, ?_, ?_, ?_, ?_⟩
  · rw [hposition]
    exact h.path
  · rw [htraced, hgroups]
    exact h.count
  · rw [hgroups]
    exact h.groups
  · rw [htraced]
    exact h.arcs

theorem line (h : Logged visits t counter log) (hsize : v.arcSize? = none)
    (hgroups : t'.arcGroups = t.arcGroups) {s : Segment} (hid : s.id = counter)
    (hstart : s.start = t.position) (hstop : s.stop = t'.position) (hgroup : s.arcGroup = none) :
    Logged (visits ++ [v]) t' (counter + 1) (log ++ [s]) := by
  have htraced := tracedArcs_of_none visits hsize
  have hnew : ∀ r ∈ [s], ∀ g, r.arcGroup ≠ some g := by
    intro r hr g hg
    rw [List.mem_singleton.mp hr, hgroup] at hg
    cases hg
  refine ⟨?_, ?_, ?_, ?_, ?_, ?_⟩
  · rw [List.length_append, List.length_singleton, h.counted]
  · rw [List.map_append, h.ids, List.length_append, List.length_singleton, List.range_succ,
      List.map_singleton, hid, h.counted]
  · have hpath := h.path
    rw [← hstart] at hpath
    rw [List.filter_append, List.filter_singleton, hgroup, ← hstop]
    exact hpath.snoc
  · rw [htraced, hgroups]
    exact h.count
  · rw [hgroups]
    intro r hr g hg
    obtain hr | hr := List.mem_append.mp hr
    · exact h.groups r hr g hg
    · exact absurd hg (hnew r hr g)
  · rw [htraced]
    intro i w hw
    exact (h.arcs i w hw).append fun r hr g hg => absurd hg (hnew r hr g)

theorem arc (h : Logged visits v.before.turtle counter log) {p : Point} {rest : List Point}
    (hne : rest ≠ []) (hsize : v.arcSize? = some rest.length) :
    Logged (visits ++ [v]) v.before.turtle.openArcGroup (counter + rest.length)
      (log ++ arcChain v.command.line v.before.turtle.penDown (v.before.turtle.arcGroups + 1 : Nat)
        counter (p :: rest)) := by
  have htraced := tracedArcs_of_some visits hsize
  have hcount := h.count
  refine ⟨?_, ?_, ?_, ?_, ?_, ?_⟩
  · rw [List.length_append, length_arcChain, h.counted]
  · rw [List.map_append, h.ids, map_id_arcChain, List.length_append, h.counted, List.range_eq_range',
      List.range_eq_range', ← List.range'_append_1, Nat.zero_add]
  · have hstraight : (arcChain v.command.line v.before.turtle.penDown
        (v.before.turtle.arcGroups + 1 : Nat) counter (p :: rest)).filter
          (·.arcGroup.isNone) = [] := by
      rw [List.filter_eq_nil_iff]
      intro s hs
      rw [(mem_arcChain hs).2.2]
      exact Bool.false_ne_true
    rw [List.filter_append, hstraight, List.append_nil]
    exact h.path
  · rw [htraced, List.length_append, hcount]
    rfl
  · intro s hs g hg
    show 1 ≤ g ∧ g ≤ ((v.before.turtle.arcGroups + 1 : Nat) : Int)
    obtain hs | hs := List.mem_append.mp hs
    · have hold := h.groups s hs g hg
      omega
    · rw [(mem_arcChain hs).2.2] at hg
      cases hg
      omega
  · intro i w hw
    rw [htraced] at hw
    by_cases hi : i < (tracedArcs visits).length
    · -- An older arc has a lower group.
      rw [List.getElem?_append_left hi] at hw
      refine (h.arcs i w hw).append fun s hs g hg => ?_
      rw [(mem_arcChain hs).2.2] at hg
      cases hg
      omega
    · have hbound : i < (tracedArcs visits ++ [v]).length := (List.getElem?_eq_some_iff.mp hw).1
      rw [List.length_append, List.length_singleton] at hbound
      obtain rfl : i = (tracedArcs visits).length := by omega
      rw [List.getElem?_concat_length] at hw
      cases hw
      rw [hcount]
      refine holdsArc_arcChain hne hsize fun s hs g hg => ?_
      have hold := h.groups s hs g hg
      omega

/-- What a command adds to the log keeps it in order. -/
theorem step (h : Logged visits v.before.turtle counter log)
    (hlogs : Logs v.before.turtle counter log v.command.line v.arcSize? t' counter' log') :
    Logged (visits ++ [v]) t' counter' log' := by
  generalize hsize : v.arcSize? = size at hlogs
  cases hlogs with
  | nothing position groups => exact h.nothing hsize position groups
  | line groups => exact h.line hsize groups rfl rfl rfl rfl
  | arc p nonempty => exact h.arc nonempty hsize

end Logged

theorem Logs.isPrefix {t t' : Turtle} {counter counter' : Nat} {log log' : List Segment} {line : Int}
    {size : Option Nat} (h : Logs t counter log line size t' counter' log') : log <+: log' := by
  cases h with
  | nothing => exact List.prefix_refl log
  | line => exact List.prefix_append log _
  | arc => exact List.prefix_append log _

variable {limits : Limits} {resolution : Int} {commands : List Command} {comments : List Comment}
  {c c' : Configuration}

theorem Tour.logged {visits : List Visit}
    (h : Tour limits (.start resolution commands comments) visits c) :
    Logged visits c.machine.turtle c.machine.drawing.counter c.machine.drawing.segments.toList :=
  h.preserves (P := fun visits m =>
    Logged visits m.turtle m.drawing.counter m.drawing.segments.toList)
    (fun _ _ _ hadvance hbefore => hbefore.step hadvance.logs) (.of_start resolution)

theorem Leads.segments_prefix (h : Leads limits (.inl c) (.inl c')) :
    c.machine.drawing.segments.toList <+: c'.machine.drawing.segments.toList :=
  h.preserves (P := fun m => c.machine.drawing.segments.toList <+: m.drawing.segments.toList)
    (fun _ _ hadvance hbefore => hbefore.trans hadvance.logs.isPrefix) (List.prefix_refl _)

/-- An arc takes a group number and changes nothing else of the turtle. -/
theorem Advance.turtle_of_arc {v : Visit} {m : Machine} (h : Advance limits v m)
    (harc : v.command.kind = .arc) :
    m.turtle.position = v.before.turtle.position ∧ m.turtle.heading = v.before.turtle.heading ∧
      m.turtle.penDown = v.before.turtle.penDown ∧
      m.turtle.resolution = v.before.turtle.resolution := by
  obtain ⟨command, before⟩ := v
  obtain ⟨action, line⟩ := command
  obtain ⟨e, f, rfl⟩ : ∃ e f, action = .arc e f := by
    cases action with
    | arc e f => exact ⟨e, f, rfl⟩
    | _ => cases harc
  obtain hc | ⟨hsilent, -, -⟩ := h.cases
  · cases hc with
    | flatArc => exact ⟨rfl, rfl, rfl, rfl⟩
    | arc => exact ⟨rfl, rfl, rfl, rfl⟩
    | note written => cases written
    | skip silent | bind silent | steer silent | move silent => cases silent
  · cases hsilent

/-- The end of a run logs nothing more. -/
theorem segments_execute
    (h : c.next limits = .inr (runCommands limits commands (.start resolution comments))) :
    (execute limits resolution commands comments).machine.drawing.segments =
      c.machine.drawing.segments := by
  unfold execute
  obtain hdone | ⟨command, rest, failure, m, -, hfailed, hm⟩ := Configuration.outcome_of_next h
  · rw [hdone]
    exact Drawing.segments_of_log c.machine.canvas.log_finish
  · rw [hfailed]
    obtain rfl | ⟨trace, rfl⟩ := hm
    · rfl
    · exact Visit.segments_ready ⟨command, c.machine⟩

theorem Leads.segments_prefix_execute
    (h : Leads limits (.inl (.start resolution commands comments)) (.inl c)) :
    c.machine.drawing.segments.toList <+:
      (execute limits resolution commands comments).machine.drawing.segments.toList := by
  obtain ⟨c', hlast, hnext⟩ :=
    (h.onward (leads_runCommands limits commands (.start resolution comments))).last
  rw [segments_execute hnext]
  exact hlast.segments_prefix

/-- At every point of a run the log is in order for the commands that were started on the way there.
An arc that is started next leaves position, heading, pen and resolution alone, and the log is a prefix
of those at all later points and of the one that the run ends with. -/
theorem segment_log_in_order
    (h : Leads limits (.inl (.start resolution commands comments)) (.inl c)) :
    (∃ visits, Tour limits (.start resolution commands comments) visits c) ∧
    (∀ visits, Tour limits (.start resolution commands comments) visits c →
      Logged visits c.machine.turtle c.machine.drawing.counter c.machine.drawing.segments.toList) ∧
    (∀ v c', c.visit? = some v → v.command.kind = .arc → c.next limits = .inl c' →
      c'.machine.turtle.position = c.machine.turtle.position ∧
      c'.machine.turtle.heading = c.machine.turtle.heading ∧
      c'.machine.turtle.penDown = c.machine.turtle.penDown ∧
      c'.machine.turtle.resolution = c.machine.turtle.resolution) ∧
    (∀ c', Leads limits (.inl c) (.inl c') →
      c.machine.drawing.segments.toList <+: c'.machine.drawing.segments.toList) ∧
    c.machine.drawing.segments.toList <+:
      (execute limits resolution commands comments).machine.drawing.segments.toList := by
  refine ⟨h.exists_tour, fun visits htour => htour.logged, fun v c' hvisit harc hnext => ?_,
    fun c' hlater => hlater.segments_prefix, h.segments_prefix_execute⟩
  obtain ⟨hnone, -⟩ | ⟨w, hvisit', hadvance⟩ := Configuration.visit_of_next hnext
  · rw [hnone] at hvisit
    cases hvisit
  · rw [hvisit'] at hvisit
    cases hvisit
    obtain ⟨command, -, rfl⟩ := Option.map_eq_some_iff.mp hvisit'
    exact hadvance.turtle_of_arc harc

/-- Lines, a loop that traces two arcs with the pen up, and an arc without a radius. -/
theorem segment_log_of_arcs_in_loop :
    let commands : List Command := [⟨.setX (.number 3), 1⟩, ⟨.penUp, 2⟩,
      ⟨.repeatBody (.number 2) "ARC 90, 1; SETY 2; ARC 5, 0".toList 3, 3⟩]
    ∃ c visits, Leads {} (.inl (.start 4 commands [])) (.inl c) ∧
      Tour {} (.start 4 commands []) visits c ∧ c.machine.turtle.arcGroups = 2 ∧
      c.machine.drawing.segments.toList.map (·.arcGroup) = [none, some 1, none, some 2, none] ∧
      Logged visits c.machine.turtle c.machine.drawing.counter c.machine.drawing.segments.toList := by
  intro commands
  have hgroups : (runCommands {} commands (.start 4 [])).machine.turtle.arcGroups = 2 := by
    decide +kernel
  have hlog : (runCommands {} commands (.start 4 [])).machine.drawing.segments.toList.map
      (·.arcGroup) = [none, some 1, none, some 2, none] := by
    decide +kernel
  obtain ⟨m, hm⟩ : ∃ m, runCommands {} commands (.start 4 []) = .done m :=
    Outcome.exists_of_isDone (by decide +kernel)
  obtain ⟨c, hlast, hnext⟩ := (leads_runCommands {} commands (.start 4 [])).last
  obtain ⟨⟨visits, htour⟩, hlogged, -⟩ := segment_log_in_order hlast
  have hc : c.machine = m := by
    rw [hm] at hnext
    obtain hdone | ⟨_, _, _, _, -, hfailed, -⟩ := Configuration.outcome_of_next hnext
    · cases hdone
      rfl
    · cases hfailed
  rw [hm] at hgroups hlog
  refine ⟨c, visits, hlast, htour, ?_, ?_, hlogged visits htour⟩
  · rw [hc]
    exact hgroups
  · rw [hc]
    exact hlog

end TurtleTrace
