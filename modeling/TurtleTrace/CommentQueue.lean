import TurtleTrace.Drawing.Basic
import TurtleTrace.Script.Command
import TurtleTrace.Script.Comment

/-!
# The queue of comments

Decides where each comment of the source lands in the drawing. Comments are taken once, by line. Before
a command runs with the pen down, the comments on earlier lines that are still waiting go before the
next point, if the command makes one, and to the open polygon otherwise. The cursor is the line that
this has reached.
-/

namespace TurtleTrace

set_option autoImplicit false

structure CommentQueue where
  waiting : List Comment := []
  taken : Nat := 0
  cursor : Int := 1
  deriving DecidableEq, Repr

namespace CommentQueue

def ofComments (comments : List Comment) : CommentQueue :=
  { waiting := sortOn Comment.line comments }

/-- The waiting comments that start on a line or above it. -/
def upTo (q : CommentQueue) (line : Int) : List Text :=
  (q.waiting.takeWhile (·.line ≤ line)).map (·.text)

def dropUpTo (q : CommentQueue) (line : Int) : CommentQueue :=
  { q with
    waiting := q.waiting.dropWhile (·.line ≤ line)
    taken := q.taken + (q.waiting.takeWhile (·.line ≤ line)).length }

def remaining (q : CommentQueue) : List Text := q.waiting.map (·.text)

def dropAll (q : CommentQueue) : CommentQueue :=
  { q with waiting := [], taken := q.taken + q.waiting.length }

def hasRemaining (q : CommentQueue) : Bool := !q.waiting.isEmpty

def setCursor (q : CommentQueue) (line : Int) : CommentQueue := { q with cursor := line }

end CommentQueue

/-! ## Placing comments -/

/-- Adds comments to the open polygon, if there are any. -/
def Drawing.place (d : Drawing) (texts : List Text) : Drawing :=
  if texts.isEmpty then d else d.addComments texts

/-- Adds the comments that precede a command which is about to run. -/
def Drawing.placeBefore (d : Drawing) (texts : List Text) (kind : Kind) (position : Point) :
    Drawing :=
  if texts.isEmpty then d
  else if kind.makesPoint then d.pinComments texts position
  else d.addComments texts

/-- A drawing together with the comments that still have to be placed in it. -/
structure Canvas where
  drawing : Drawing := {}
  queue : CommentQueue := {}
  deriving DecidableEq, Repr

namespace Canvas

/-- Places the comments up to a line. -/
def flushUpTo (c : Canvas) (line : Int) : Canvas :=
  { drawing := c.drawing.place (c.queue.upTo line), queue := c.queue.dropUpTo line }

/-- Places all comments that are left. -/
def flushAll (c : Canvas) : Canvas :=
  { drawing := c.drawing.place c.queue.remaining, queue := c.queue.dropAll }

/-- Places the comments above a command that is about to run. -/
def beforeCommand (c : Canvas) (kind : Kind) (line : Int) (penDown : Bool) (position : Point) :
    Canvas :=
  if !penDown || line ≤ c.queue.cursor then c
  else
    { drawing := c.drawing.placeBefore (c.queue.upTo (line - 1)) kind position
      queue := (c.queue.dropUpTo (line - 1)).setCursor line }

def onDrawing (c : Canvas) (f : Drawing → Drawing) : Canvas := { c with drawing := f c.drawing }

def setCursor (c : Canvas) (line : Int) : Canvas := { c with queue := c.queue.setCursor line }

end Canvas

end TurtleTrace
