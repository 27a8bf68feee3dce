import Linework.Canvas.Basic
import Linework.Outline.Group
import Linework.Outline.PathText

/-!
# Path commands on a canvas

The groups of a command are resolved into absolute points and then drawn in order; the pen moves
once all of them are drawn. Arcs alone move the pen after every group. The arguments are read as
numbers after the pen has been asked for its current point, and lines along an axis and arcs read
them one group at a time.
-/

set_option autoImplicit false

namespace Linework

open Scalar
open Outline (Command Element)

namespace Canvas

variable {σ α : Type} [Scalar α] [Surface σ α]

def drawLines : List (Point α) → Act (Canvas σ α) Unit
  | [] => pure ()
  | [z] => do
    draw (.lineTo z)
    movePen fun p => p.moveTo z
  | z :: rest => do
    draw (.lineTo z)
    drawLines rest

def drawCubics : List (CubicTo α) → Act (Canvas σ α) Unit
  | [] => pure ()
  | [c] => do
    draw (.cubicTo c.first c.second c.finish)
    movePen fun p => p.curveTo .cubic c.second c.finish
  | c :: rest => do
    draw (.cubicTo c.first c.second c.finish)
    drawCubics rest

def drawQuadratics : List (QuadraticTo α) → Act (Canvas σ α) Unit
  | [] => pure ()
  | [q] => do
    draw (.quadraticTo q.control q.finish)
    movePen fun p => p.curveTo .quadratic q.control q.finish
  | q :: rest => do
    draw (.quadraticTo q.control q.finish)
    drawQuadratics rest

def requireControl (curve : Curve) : Act (Canvas σ α) (Point α) := do
  match (← get).pen.control curve with
  | some z => pure z
  | none => throw (.noSmoothContext curve)

def points (arguments : List (Argument α)) : Act (Canvas σ α) (List (Point α)) :=
  Act.ofExcept ((Argument.reals arguments).map Point.pairs)

def lineThrough (zs : List (Point α)) : Act (Canvas σ α) Unit := do
  match zs with
  | [] => pure ()
  | z :: _ =>
    ensureOpenAt z
    drawLines zs

def line (relative : Bool) (arguments : List (Argument α)) : Act (Canvas σ α) Unit := do
  if relative then
    let current ← requireCurrent
    drawLines (displaced current (← points arguments))
  else lineThrough (← points arguments)

def move (relative : Bool) (arguments : List (Argument α)) : Act (Canvas σ α) Unit := do
  match arguments with
  | x :: y :: rest =>
    let z ← Act.ofExcept (Argument.point ⟨x, y⟩)
    let origin := (← get).pen.current.getD Point.zero
    moveTo (if relative then origin + z else z)
    if rest.isEmpty then pure () else line relative rest
  | _ => pure ()

/-- Draws lines along one axis, each argument being looked at when its line is due, and moves the
pen to where the last one ends. -/
def drawAlong (step : Point α → α → Point α) :
    Point α → List (Argument α) → Act (Canvas σ α) Unit
  | _, [] => pure ()
  | p, [a] => do
    let x ← Act.ofExcept a.real
    drawLines [step p x]
  | p, a :: rest => do
    let x ← Act.ofExcept a.real
    draw (.lineTo (step p x))
    drawAlong step (step p x) rest

def axisLine (step : Point α → α → Point α) (arguments : List (Argument α)) :
    Act (Canvas σ α) Unit := do
  let current ← requireCurrent
  drawAlong step current arguments

def horizontalStep (relative : Bool) (p : Point α) (x : α) : Point α :=
  if relative then p + Point.ofReal x else ⟨x, p.y⟩

def verticalStep (relative : Bool) (p : Point α) (y : α) : Point α :=
  if relative then p + Point.upward y else ⟨p.x, y⟩

def cubic (relative : Bool) (arguments : List (Argument α)) : Act (Canvas σ α) Unit := do
  if relative then
    let current ← requireCurrent
    drawCubics (CubicTo.resolve current (CubicTo.group (← points arguments)))
  else
    match ← points arguments with
    | [] => pure ()
    | z :: rest =>
      ensureOpenAt z
      drawCubics (CubicTo.group (z :: rest))

def quadratic (relative : Bool) (arguments : List (Argument α)) : Act (Canvas σ α) Unit := do
  if relative then
    let current ← requireCurrent
    drawQuadratics (QuadraticTo.resolve current (QuadraticTo.group (← points arguments)))
  else
    match ← points arguments with
    | [] => pure ()
    | z :: rest =>
      ensureOpenAt z
      drawQuadratics (QuadraticTo.group (z :: rest))

def smoothCubic (relative : Bool) (arguments : List (Argument α)) : Act (Canvas σ α) Unit := do
  let control ← requireControl .cubic
  let current ← requireCurrent
  drawCubics (smoothCubics relative current control (QuadraticTo.group (← points arguments)))

def smoothQuadratic (relative : Bool) (arguments : List (Argument α)) :
    Act (Canvas σ α) Unit := do
  let control ← requireControl .quadratic
  let current ← requireCurrent
  drawQuadratics (smoothQuadratics relative current control (← points arguments))

/-- Joins the current point to another one by part of an ellipse. A zero radius makes it a line,
and an arc to the current point itself is left out. -/
def arcSegment (a : ArcTo (Argument α)) (finish : Point α) : Act (Canvas σ α) Unit := do
  if a.radii.x.isZero || a.radii.y.isZero then lineThrough [finish]
  else
    let start ← requireCurrent
    if start.beq finish then movePen fun p => p.moveTo finish
    else
      let request ← Act.ofExcept (a.request finish)
      let arc ← Act.ofExcept (request.toArc start true)
      draw (.oval ⟨arc.ellipse, arc.startAngle, arc.endAngle, !request.clockwise⟩)
      movePen fun p => p.moveTo finish

def arcs (relative : Bool) : List (ArcTo (Argument α)) → Act (Canvas σ α) Unit
  | [] => pure ()
  | a :: rest => do
    if relative then
      let current ← requireCurrent
      let offset ← Act.ofExcept (Argument.point a.finish)
      arcSegment a (current + offset)
    else
      let finish ← Act.ofExcept (Argument.point a.finish)
      arcSegment a finish
    arcs relative rest

def close : Act (Canvas σ α) Unit := do
  draw .closePath
  movePen Pen.close

def accepts (c : Command) (count : Nat) : Bool :=
  if c.verb = .close then count == 0 else count != 0 && count % c.groupSize == 0

def carryOut (c : Command) (arguments : List (Argument α)) : Act (Canvas σ α) Unit :=
  match c.verb with
  | .move => move c.relative arguments
  | .line => line c.relative arguments
  | .horizontal => axisLine (horizontalStep c.relative) arguments
  | .vertical => axisLine (verticalStep c.relative) arguments
  | .cubic => cubic c.relative arguments
  | .smoothCubic => smoothCubic c.relative arguments
  | .quadratic => quadratic c.relative arguments
  | .smoothQuadratic => smoothQuadratic c.relative arguments
  | .arc => arcs c.relative (ArcTo.group arguments)
  | .close => close

def command (c : Command) (arguments : List (Argument α)) : Act (Canvas σ α) Unit :=
  if accepts c arguments.length then carryOut c arguments
  else throw (.argumentCount c arguments.length)

def elements : List (Element α) → Act (Canvas σ α) Unit
  | [] => pure ()
  | e :: rest => do
    command e.command (Argument.ofNumbers e.numbers)
    elements rest

/-- Draws the path that a text describes, once the whole text has been read. -/
def path (text : String) : Act (Canvas σ α) Unit := do
  let list ← Act.ofExcept (Outline.parse text)
  elements list

end Canvas

end Linework
