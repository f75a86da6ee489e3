import TurtleTrace.Sorting
import TurtleTrace.Text.Basic
import TurtleTrace.Turtle

/-!
# Polygons

A polygon is a row of points with comments. Free comments are written before the polygon; a pinned
comment is written right before the point whose index is its slot. Pinned comments are kept in the
order in which they were placed, and `slots` groups them.
-/

namespace TurtleTrace

set_option autoImplicit false

/-- The circle that a full turn of an arc traces. -/
structure Circle where
  centre : Point
  radius : Float
  resolution : Int
  deriving DecidableEq, Repr

structure Polygon where
  points : Array Point := #[]
  free : Array Text := #[]
  pinned : Array (Int × Text) := #[]
  commentOnly : Bool := false
  circle : Option Circle := none
  deriving DecidableEq, Repr

namespace Polygon

def empty : Polygon := {}

def seeded (p : Point) : Polygon := { points := #[p] }

/-- Whether there is no more than the point that the polygon was started at. -/
def isSeed (p : Polygon) : Bool := p.points.size ≤ 1

/-- The slot for a comment at the current place: zero while there is only the seed. -/
def nextSlot (p : Polygon) : Int := if p.isSeed then 0 else p.points.size

def addPoint (p : Polygon) (point : Point) : Polygon := { p with points := p.points.push point }

def pin (p : Polygon) (slot : Int) (texts : List Text) : Polygon :=
  { p with pinned := p.pinned ++ texts.map fun text => (slot, text) }

/-- Pins comments at the current place. -/
def pinHere (p : Polygon) (texts : List Text) : Polygon := p.pin p.nextSlot texts

/-- Adds comments in front of the polygon while nothing has been traced or pinned, and pins them at
the current place afterwards, so that they stay in order. -/
def addComments (p : Polygon) (texts : List Text) : Polygon :=
  if p.isSeed && p.pinned.isEmpty then { p with free := p.free ++ texts } else p.pinHere texts

/-- The pinned comments by ascending slot, in the order of placement within a slot. -/
def pinnedInOrder (p : Polygon) : List (Int × Text) := sortOn Prod.fst p.pinned.toList

/-- Joins neighbours that have the same slot. -/
def groupSlots : List (Int × Text) → List (Int × List Text)
  | [] => []
  | (slot, text) :: rest =>
    match groupSlots rest with
    | (next, texts) :: groups =>
      if slot = next then (slot, text :: texts) :: groups
      else (slot, [text]) :: (next, texts) :: groups
    | [] => [(slot, [text])]

/-- The slots in use by ascending index, each with its comments. -/
def slots (p : Polygon) : List (Int × List Text) := groupSlots p.pinnedInOrder

end Polygon

end TurtleTrace
