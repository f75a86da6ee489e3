import TurtleTrace.Drawing.Basic
import TurtleTrace.Number.Fixed

/-!
# OpenSCAD text

Each finished polygon becomes a block of lines: its free comments, then a `polygon` statement with
the pinned comments before their points, or a `circle` statement with all of them in front. Blocks
are separated by an empty line.
-/

namespace TurtleTrace.Scad

set_option autoImplicit false

structure Style where
  indent : Int := 2
  circles : Bool := true
  deriving DecidableEq, Repr

def Style.margin (s : Style) : Text := List.replicate s.indent.toNat ' '

/-- The text of a drawing without polygons. -/
def noPolygons : Text := "// No polygons".toList

/-- A point in brackets. -/
def pointText (p : Point) : Text :=
  '[' :: decimal p.x ++ ", ".toList ++ decimal p.y ++ [']']

/-- The points of the ring: a copy of the first one closes it, unless the last one equals it. A
polygon without points is the origin alone. -/
def ring (points : List Point) : List Point :=
  match points with
  | [] => [.origin]
  | first :: rest =>
    let last := rest.getLastD first
    if first.x != last.x || first.y != last.y then points ++ [first] else points

/-- The lines of the points from an index on, each with the comments of its slot in front; the
comments are given by ascending slot. Comments of later slots come at the end. -/
def pointLines (margin : Text) : Nat → List Point → List (Int × Text) → List Text
  | _, [], pinned => pinned.map Prod.snd
  | index, p :: rest, pinned =>
    let here := pinned.takeWhile (·.1 == (index : Int))
    let later := pinned.dropWhile (·.1 == (index : Int))
    let comma := if rest.isEmpty then [] else [',']
    here.map Prod.snd ++ (margin ++ pointText p ++ comma) ::
      pointLines margin (index + 1) rest later

def polygonLines (style : Style) (polygon : Polygon) : List Text :=
  let pinned := polygon.pinnedInOrder.dropWhile (·.1 < 0)
  "polygon(points=[".toList :: pointLines style.margin 0 (ring polygon.points.toList) pinned ++
    ["]);".toList]

def circleLines (style : Style) (polygon : Polygon) (circle : Circle) : List Text :=
  polygon.pinnedInOrder.map Prod.snd ++
    ["translate(".toList ++ pointText circle.centre ++ ")".toList,
      style.margin ++ "circle(r=".toList ++ decimal circle.radius.abs ++ ", $fn=".toList ++
        Text.ofInt circle.resolution ++ ");".toList]

/-- The lines of a polygon's geometry with its pinned comments. -/
def geometryLines (style : Style) (polygon : Polygon) : List Text :=
  if polygon.commentOnly then []
  else
    match polygon.circle with
    | some circle =>
      if style.circles then circleLines style polygon circle else polygonLines style polygon
    | none => polygonLines style polygon

def blockLines (style : Style) (polygon : Polygon) : List Text :=
  polygon.free.toList ++ geometryLines style polygon

def block (style : Style) (polygon : Polygon) : Text :=
  Text.join ['\n'] (blockLines style polygon)

def generate (style : Style) (polygons : List Polygon) : Text :=
  if polygons.isEmpty then noPolygons
  else Text.join ['\n', '\n'] ((polygons.map (block style)).filter (!·.isEmpty))

end TurtleTrace.Scad
