import TurtleTrace.Machine.Step

/-!
# Running commands

A command is counted, the comments above it are placed, and its action is carried out. A frame runs
its body as often as it says. Two guards bound a run: the number of commands that may start, and the
number of frames that may be open. The recursion goes down a number of levels that is fixed in
advance; a script that needs more of them fails.
-/

namespace TurtleTrace

set_option autoImplicit false

structure Limits where
  callDepth : Int := 100
  steps : Int := 1000000
  nesting : Nat := 1000
  deriving DecidableEq, Repr

/-- Runs commands one after the other, up to the first failure. -/
def runAll (run : Command → Machine → Outcome) : List Command → Machine → Outcome
  | [], m => .done m
  | command :: rest, m =>
    match run command m with
    | .done m => runAll run rest m
    | .failed failure m => .failed failure m

/-- Runs the same thing a number of times, up to the first failure. -/
def replay (run : Machine → Outcome) : Nat → Machine → Outcome
  | 0, m => .done m
  | n + 1, m =>
    match run m with
    | .done m => replay run n m
    | .failed failure m => .failed failure m

/-- Starts a command: counts it, checks the number of steps, places the comments above it and carries
out its action. -/
def startCommand (limits : Limits) (command : Command) (m : Machine) : Step :=
  let m := m.begin command.line
  if limits.steps < m.steps then
    .failed (.script (.tooManySteps limits.steps) command.line) m
  else
    let m := m.placeComments command.kind command.line
    m.act command.action command.line

/-- Runs one command inside `depth` open frames, with room for `room` more levels of nesting. -/
def runCommand (limits : Limits) : (room depth : Nat) → Command → Machine → Outcome
  | room, depth, command, m =>
    match startCommand limits command m with
    | .done m => .done m
    | .failed failure m => .failed failure m
    | .enter frame body m =>
      if limits.callDepth ≤ depth then
        .failed (.script (.tooDeep limits.callDepth) frame.line) m
      else
        match room with
        | 0 => .failed (.script .nestingExhausted command.line) m
        | room + 1 =>
          replay (runAll (runCommand limits room (depth + 1)) body) frame.count.toNat
            (m.record (.entered frame (depth + 1)))

def runCommands (limits : Limits) (commands : List Command) (m : Machine) : Outcome :=
  runAll (runCommand limits limits.nesting 0) commands m

/-- Ends a run: the comments that are left are placed and the open polygon is finished. The seed of a
script that drew nothing and has no comments is dropped, and a seed with free comments alone draws
nothing. -/
def Canvas.finish (c : Canvas) : Canvas :=
  let untouched := match c.drawing.current with
    | none => false
    | some polygon => polygon.isSeed && polygon.free.isEmpty && polygon.pinned.isEmpty &&
        !c.queue.hasRemaining
  if untouched then c.onDrawing fun d => { d with current := none }
  else
    c.flushAll.onDrawing fun d =>
      let untraced := match d.current with
        | none => false
        | some polygon => polygon.isSeed && polygon.pinned.isEmpty
      d.finishPolygon untraced none

def Drawing.event (d : Drawing) (steps : Nat) : Event :=
  .finished steps d.segments.size d.polygons.size d.markers.size

def Machine.finish (m : Machine) : Machine :=
  let m := m.onCanvas Canvas.finish
  m.record (m.drawing.event m.steps)

/-- A whole run: from a fresh turtle at the origin, pen down, to the finished drawing. -/
def execute (limits : Limits) (resolution : Int) (commands : List Command)
    (comments : List Comment) : Outcome :=
  match runCommands limits commands (.start resolution comments) with
  | .done m => .done m.finish
  | .failed failure m => .failed failure m

end TurtleTrace
