import Linework.Canvas.Path

/-!
# Arcs and ellipses on a canvas

Besides the arcs of a path a canvas offers parts of an ellipse about a centre, and rounded
corners. Angles are given in the unit of the pen.
-/

set_option autoImplicit false

namespace Linework

open Scalar

/-- Part of an ellipse as it is asked for: angles in the unit of the pen, of which the start may
be left out for zero and the end for a full turn. -/
structure OvalRequest (α : Type) where
  center : Point (Argument α)
  radii : Point (Argument α)
  rotation : Argument α
  startAngle : Argument α
  endAngle : Argument α
  anticlockwise : Argument α

def AngleUnit.resolve {α : Type} [Scalar α] (unit : AngleUnit) (angle : Argument α) :
    Except Fault (Argument α) :=
  match unit with
  -- An angle in radians already is passed on, whatever it is.
  | radians => .ok angle
  | degrees => angle.real.map fun x => .number (unit.toRadians x)

namespace OvalRequest

variable {α : Type} [Scalar α]

def resolve (r : OvalRequest α) (unit : AngleUnit) : Except Fault (OvalRequest α) := do
  let startAngle ← match r.startAngle with
    | .absent => pure (.number (whole 0))
    | angle => unit.resolve angle
  let endAngle ← match r.endAngle with
    | .absent => pure (.number fullTurn)
    | angle => unit.resolve angle
  let center ← Argument.point r.center
  let radii ← Argument.point r.radii
  let rotation ← unit.resolve r.rotation
  return ⟨Argument.ofPoint center, Argument.ofPoint radii, rotation, startAngle, endAngle,
    r.anticlockwise⟩

def toOval (r : OvalRequest α) : Except Fault (Oval α) :=
  Oval.ofArguments r.center r.radii r.rotation r.startAngle r.endAngle r.anticlockwise

def call (r : OvalRequest α) : Call α :=
  .ellipse r.center r.radii r.rotation r.startAngle r.endAngle r.anticlockwise

end OvalRequest

/-- What an arc of a given radius draws to round a corner: a point of the first side where it
begins, the arc, and a point of the second side where it ends. -/
structure Fillet (α : Type) where
  start : Point α
  arc : Oval α
  finish : Point α

namespace Fillet

variable {α : Type} [Scalar α]

def collinearTolerance : α := place 12

def inCorner (p0 p1 p2 : Point α) (theta r : α) : Except Fault (Fillet α) := do
  let u0 ← (p0 - p1).direction
  let u2 ← (p2 - p1).direction
  let distance ← divide r (tan (theta / whole 2))
  let start := p1 + Point.scaleBy distance u0
  let finish := p1 + Point.scaleBy distance u2
  let reach ← divide r (sin (theta / whole 2))
  let middle ← (u0 + u2).direction
  let center := p1 + Point.scaleBy reach middle
  let turn := p1 - p0
  let ahead := p2 - p1
  pure ⟨start,
    ⟨⟨center, ⟨r, r⟩, whole 0⟩, (start - center).heading, (finish - center).heading,
      blt (turn.x * ahead.y - turn.y * ahead.x) (whole 0)⟩,
    finish⟩

def call (f : Fillet α) (r : Argument α) : Call α :=
  .ellipse (Argument.ofPoint f.arc.ellipse.center) ⟨r, r⟩ (.number f.arc.ellipse.rotation)
    (.number f.arc.startAngle) (.number f.arc.endAngle) (.flag f.arc.anticlockwise)

def of? (p0 p1 p2 : Point α) (r : α) : Except Fault (Option (Fillet α)) :=
  if isZero r || p0.beq p1 || p1.beq p2 then .ok none
  else do
    let angle ← (p0 - p1).angleTo (p2 - p1)
    let theta := magnitude angle
    if blt theta collinearTolerance || blt (pi - theta) collinearTolerance then pure none
    else
      let fillet ← inCorner p0 p1 p2 theta r
      pure (some fillet)

end Fillet

namespace Canvas

variable {σ α : Type} [Scalar α] [Surface σ α]

/-- Draws part of an ellipse, beginning a subpath at its start if none is open. The pen ends up
where the sweep ends, which for a full turn is the start. -/
def oval (request : OvalRequest α) : Act (Canvas σ α) Unit := do
  let c ← get
  let r ← Act.ofExcept (request.resolve c.pen.unit)
  let radii ← Act.ofExcept (Argument.point r.radii)
  if blt radii.x (whole 0) || blt radii.y (whole 0) then throw .negativeRadii
  else
    let o ← Act.ofExcept r.toOval
    let arc ← Act.ofExcept o.toArc
    if c.pen.isOpen then pure () else moveTo arc.start
    draw r.call
    movePen fun p => p.moveTo arc.finish

def roundedCorner (p1 p2 : Point (Argument α)) (r : Argument α) : Act (Canvas σ α) Unit := do
  let radius ← Act.ofExcept r.real
  if blt radius (whole 0) then throw .negativeRadius
  else
    let p1 ← Act.ofExcept (Argument.point p1)
    let p2 ← Act.ofExcept (Argument.point p2)
    ensureOpenAt p1
    let p0 := (← get).pen.current.getD p1
    match ← Act.ofExcept (Fillet.of? p0 p1 p2 radius) with
    | none => drawLines [p1]
    | some f =>
      draw (.lineTo f.start)
      draw (f.call r)
      movePen fun p => p.moveTo f.finish

end Canvas

end Linework
