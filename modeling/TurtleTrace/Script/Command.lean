import TurtleTrace.Expr.Basic

/-!
# Commands

One statement of a script is one command: an action and the line it is attributed to. Bodies of loops
and stored instruction lists are kept as text and read when they run.
-/

namespace TurtleTrace

set_option autoImplicit false

/-- The nineteen kinds of command. -/
inductive Kind where
  | fd
  | bk
  | lt
  | rt
  | seth
  | setx
  | sety
  | setxy
  | home
  | pu
  | pd
  | arc
  | make
  | «repeat»
  | call
  | print
  | extsetfn
  | extcommentpos
  | extmarker
  deriving DecidableEq, Repr

namespace Kind

def all : List Kind :=
  [fd, bk, lt, rt, seth, setx, sety, setxy, home, pu, pd, arc, make, «repeat», call, print,
    extsetfn, extcommentpos, extmarker]

/-- The keyword that messages show. -/
def keyword : Kind → Text
  | fd => "FD".toList
  | bk => "BK".toList
  | lt => "LT".toList
  | rt => "RT".toList
  | seth => "SETH".toList
  | setx => "SETX".toList
  | sety => "SETY".toList
  | setxy => "SETXY".toList
  | home => "HOME".toList
  | pu => "PU".toList
  | pd => "PD".toList
  | arc => "ARC".toList
  | make => "MAKE".toList
  | «repeat» => "REPEAT".toList
  | call => "CALL".toList
  | print => "PRINT".toList
  | extsetfn => "EXTSETFN".toList
  | extcommentpos => "EXTCOMMENTPOS".toList
  | extmarker => "EXTMARKER".toList

/-- The kind that messages and tools show under a keyword. -/
def ofKeyword? (word : Text) : Option Kind := all.find? (·.keyword = word)

/-- The longer spellings of some keywords. -/
def aliases : List (Text × Kind) :=
  [("FORWARD".toList, fd), ("BACK".toList, bk), ("LEFT".toList, lt), ("RIGHT".toList, rt),
    ("PENUP".toList, pu), ("PENDOWN".toList, pd), ("SETHEADING".toList, seth)]

/-- The kind of a statement that starts with a word in capitals. A call has no keyword. -/
def ofSpelling? (word : Text) : Option Kind :=
  match ofKeyword? word with
  | some call => none
  | some kind => some kind
  | none => aliases.lookup word

/-- Whether a command of this kind adds a point to the open polygon. -/
def makesPoint : Kind → Bool
  | fd | bk | setx | sety | setxy | arc | home => true
  | _ => false

end Kind

/-- What is printed: a text in brackets, or the value of an expression. -/
inductive PrintItem where
  | text (t : Text)
  | value (e : Expr)
  deriving DecidableEq, Repr

inductive Action where
  | forward (distance : Expr)
  | back (distance : Expr)
  | left (angle : Expr)
  | right (angle : Expr)
  | setHeading (angle : Expr)
  | setX (x : Expr)
  | setY (y : Expr)
  | setXY (x y : Expr)
  | home
  | penUp
  | penDown
  | arc (angle radius : Expr)
  | makeNumber (name : Text) (value : Expr)
  | makeList (name : Text) (body : Text)
  | repeatBody (count : Expr) (body : Text) (bodyLine : Int)
  | repeatNamed (count : Expr) (name : Text)
  | call (name : Text)
  | print (items : List PrintItem)
  | setResolution (value : Expr)
  | notePosition (label : Option Text)
  | marker (label : Option Text) (place : Option (Expr × Expr))
  deriving DecidableEq, Repr

def Action.kind : Action → Kind
  | forward _ => .fd
  | back _ => .bk
  | left _ => .lt
  | right _ => .rt
  | setHeading _ => .seth
  | setX _ => .setx
  | setY _ => .sety
  | setXY _ _ => .setxy
  | home => .home
  | penUp => .pu
  | penDown => .pd
  | arc _ _ => .arc
  | makeNumber _ _ => .make
  | makeList _ _ => .make
  | repeatBody _ _ _ => .repeat
  | repeatNamed _ _ => .repeat
  | call _ => .call
  | print _ => .print
  | setResolution _ => .extsetfn
  | notePosition _ => .extcommentpos
  | marker _ _ => .extmarker

structure Command where
  action : Action
  line : Int
  deriving DecidableEq, Repr

namespace Command

def kind (c : Command) : Kind := c.action.kind

/-- A command of a stored list, attributed to the line that runs the list. -/
def relocate (line : Int) (c : Command) : Command :=
  match c.action with
  | .repeatBody count body _ => ⟨.repeatBody count body line, line⟩
  | action => ⟨action, line⟩

@[simp] theorem line_relocate (line : Int) (c : Command) : (c.relocate line).line = line := by
  unfold relocate
  split <;> rfl

@[simp] theorem kind_relocate (line : Int) (c : Command) : (c.relocate line).kind = c.kind := by
  obtain ⟨action, _⟩ := c
  cases action <;> rfl

end Command

end TurtleTrace
