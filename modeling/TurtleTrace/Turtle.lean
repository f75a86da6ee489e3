import TurtleTrace.Number.Whole

/-!
# The turtle

A turtle has a position and a heading in degrees. Heading zero points up and headings grow clockwise,
so a unit step along a heading has the coordinates sine and cosine.
-/

namespace TurtleTrace

set_option autoImplicit false

structure Point where
  x : Float
  y : Float
  deriving DecidableEq, Repr

def Point.origin : Point := ⟨0, 0⟩

/-- The number pi as a float. -/
def pi : Float := 3.141592653589793

def radians (degrees : Float) : Float := degrees * pi / 180

/-- Sine and cosine of an angle in radians; an infinite angle has none. -/
def direction (angle : Float) : Except ArithmeticFault (Float × Float) :=
  if angle.isInf then .error .infiniteAngle else .ok (angle.sin, angle.cos)

/-- The point that a step along a heading reaches. -/
def Point.advance (p : Point) (heading distance : Float) : Except ArithmeticFault Point := do
  let (sine, cosine) ← direction (radians heading)
  return ⟨p.x + sine * distance, p.y + cosine * distance⟩

/-- The resolution of arcs that a turtle starts with, where nothing else is said. -/
def defaultResolution : Int := 40

structure Turtle where
  position : Point := .origin
  previous : Point := .origin
  heading : Float := 0
  penDown : Bool := true
  resolution : Int := defaultResolution
  arcGroups : Nat := 0
  deriving DecidableEq, Repr

namespace Turtle

def start (resolution : Int) : Turtle := { resolution }

def moveTo (t : Turtle) (p : Point) : Turtle := { t with position := p, previous := t.position }

/-- Turns clockwise. -/
def turn (t : Turtle) (degrees : Float) : Turtle := { t with heading := t.heading + degrees }

def setHeading (t : Turtle) (degrees : Float) : Turtle := { t with heading := degrees }

/-- Takes the next number of an arc group. -/
def openArcGroup (t : Turtle) : Turtle := { t with arcGroups := t.arcGroups + 1 }

def setPen (t : Turtle) (down : Bool) : Turtle := { t with penDown := down }

def setResolution (t : Turtle) (resolution : Int) : Turtle := { t with resolution }

end Turtle

end TurtleTrace
