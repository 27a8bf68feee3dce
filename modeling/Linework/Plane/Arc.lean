import Linework.Plane.Angle

/-!
# Elliptical arcs

An arc is given by its centre, a start angle and a signed sweep, or by its two ends, its radii
and two flags that choose one of the four arcs through the ends. The two conversions between
these forms are the subject of this module.
-/

set_option autoImplicit false

namespace Linework

open Scalar

/-- The signed sweep from one angle to another in a direction. A full turn or more counts as
exactly one turn. -/
def sweepBetween {α : Type} [Scalar α] (startAngle endAngle : α) (anticlockwise : Bool) : α :=
  if anticlockwise then
    if ble fullTurn (startAngle - endAngle) then -fullTurn
    else -(floorMod (startAngle - endAngle) fullTurn)
  else if ble fullTurn (endAngle - startAngle) then fullTurn
  else floorMod (endAngle - startAngle) fullTurn

structure Ellipse (α : Type) where
  center : Point α
  radii : Point α
  rotation : α

namespace Ellipse

variable {α : Type} [Scalar α]

def pointAt (e : Ellipse α) (angle : α) : Except Fault (Point α) := do
  let c ← onCircle cos angle
  let s ← onCircle sin angle
  return (Point.ofReal (e.radii.x * c) + Point.upward e.radii.y * Point.ofReal s).rotate
    e.rotation + e.center

end Ellipse

/-- An arc of an ellipse from a start angle through a signed sweep, with its two ends. -/
structure Arc (α : Type) where
  ellipse : Ellipse α
  startAngle : α
  sweep : α
  start : Point α
  finish : Point α

namespace Arc

variable {α : Type} [Scalar α]

def endAngle (a : Arc α) : α := a.startAngle + a.sweep

def anticlockwise (a : Arc α) : Bool := blt a.sweep (whole 0)

def ofSweep (e : Ellipse α) (startAngle sweep : α) (start? finish? : Option (Point α)) :
    Except Fault (Arc α) := do
  let start ← match start? with
    | some p => pure p
    | none => e.pointAt startAngle
  let finish ← match finish? with
    | some p => pure p
    | none => e.pointAt (startAngle + sweep)
  return ⟨e, startAngle, sweep, start, finish⟩

end Arc

/-- A request for the arc between two points: the radii and the rotation of its ellipse, the
latter in degrees, whether it is the larger one, and whether angles grow along it. -/
structure EndpointArc (α : Type) where
  radii : Point α
  rotation : α
  large : Bool
  clockwise : Bool
  finish : Point α

namespace EndpointArc

variable {α : Type} [Scalar α]

/-- The centre of the ellipse in the frame whose axes are those of the ellipse and whose origin
is the middle of the chord, for radii that the chord fits into; `p` is the start of the chord in
this frame. The two candidates lie on either side of the chord. -/
def innerCenter (radii p : Point α) (otherSide : Bool) : Except Fault (Point α) := do
  let rx := radii.x
  let ry := radii.y
  let spread := rx * rx * (p.y * p.y) + ry * ry * (p.x * p.x)
  let square ← divide (rx * rx * (ry * ry) - spread) spread
  let root := sqrt (atLeastZero square)
  let across ← divide (rx * p.y) ry
  let down ← (Point.upward ry * Point.ofReal p.x).divBy rx
  return Point.ofReal (if otherSide then -root else root) * (Point.ofReal across - down)

def excess (radii p : Point α) : Except Fault α := do
  return (← divide (p.x * p.x) (radii.x * radii.x)) + (← divide (p.y * p.y) (radii.y * radii.y))

/-- Radii that the chord fits into, and the centre in the frame of the ellipse. Radii that are too
small are scaled up together, so that the chord becomes a diameter, or refused. -/
def fit (radii p : Point α) (otherSide autoscale : Bool) : Except Fault (Point α × Point α) := do
  let square ← excess radii p
  if blt (whole 1) square then
    if autoscale then pure (⟨radii.x * sqrt square, radii.y * sqrt square⟩, Point.zero)
    else throw .noSuchArc
  else
    let inner ← innerCenter radii p otherSide
    pure (radii, inner)

def inRadii (radii inner p : Point α) : Except Fault (Point α) := do
  return ⟨← divide (p.x - inner.x) radii.x, ← divide (p.y - inner.y) radii.y⟩

def directed (clockwise : Bool) (least : α) : α :=
  if clockwise && blt least (whole 0) then least + fullTurn
  else if !clockwise && blt (whole 0) least then least - fullTurn
  else least

def toArc (request : EndpointArc α) (start : Point α) (autoscale : Bool) :
    Except Fault (Arc α) :=
  let finish := request.finish
  let asked : Point α := ⟨magnitude request.radii.x, magnitude request.radii.y⟩
  if start.beq finish then .error .coincidentEndpoints
  else if isZero asked.x || isZero asked.y then .error .zeroRadius
  else do
    let phi := ofDegrees request.rotation
    let frame := Point.onUnitCircle phi
    let half ← (start - finish).divBy (whole 2)
    let p ← half.div frame
    let (radii, inner) ← fit asked p (request.large == request.clockwise) autoscale
    let middle ← (start + finish).divBy (whole 2)
    let u ← inRadii radii inner p
    let v ← inRadii radii inner ⟨-p.x, -p.y⟩
    let startAngle ← (Point.ofReal (whole 1)).angleTo u
    let least ← u.angleTo v
    pure ⟨⟨frame * inner + middle, Point.ofReal radii.x + Point.upward radii.y, phi⟩,
      startAngle, directed request.clockwise least, start, finish⟩

end EndpointArc

/-- What is asked of a surface when it draws part of an ellipse: two angles and a direction. -/
structure Oval (α : Type) where
  ellipse : Ellipse α
  startAngle : α
  endAngle : α
  anticlockwise : Bool

namespace Oval

variable {α : Type} [Scalar α]

def sweep (o : Oval α) : α := sweepBetween o.startAngle o.endAngle o.anticlockwise

def toArc (o : Oval α) : Except Fault (Arc α) :=
  Arc.ofSweep o.ellipse o.startAngle o.sweep none none

def piecesOf (o : Oval α) (arc : Arc α) : Except Fault (List (EndpointArc α)) :=
  let piece (large : Bool) (finish : Point α) : EndpointArc α :=
    ⟨o.ellipse.radii, toDegrees o.ellipse.rotation, large, blt (whole 0) arc.sweep, finish⟩
  if isZero arc.sweep then .ok []
  else if isClose (magnitude arc.sweep) fullTurn then do
    let middle ← o.ellipse.pointAt (o.startAngle + arc.sweep / whole 2)
    pure [piece false middle, piece false arc.start]
  else .ok [piece (blt pi (magnitude arc.sweep)) arc.finish]

def pieces (o : Oval α) : Except Fault (Point α × List (EndpointArc α)) := do
  let arc ← o.toArc
  let list ← o.piecesOf arc
  return (arc.start, list)

end Oval

end Linework
