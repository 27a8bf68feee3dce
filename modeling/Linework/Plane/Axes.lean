import Linework.Plane.Affine
import Linework.Plane.Arc

/-!
# The axes of a transformed circle

A linear map takes the unit circle to an ellipse. Its principal axes are two lengths, the larger
one first, and the angle of the larger axis. For doubles the angle is pinned down where it is
hardly or not determined: it lies above minus and at most at a quarter turn, and is zero when the
two lengths agree. A map with an infinite entry has no axes.
-/

set_option autoImplicit false

namespace Linework

structure Matrix2 (α : Type) where
  xx : α
  xy : α
  yx : α
  yy : α

structure Axes (α : Type) where
  major : α
  minor : α
  angle : α

class HasAxes (α : Type) where
  axes : Matrix2 α → Axes α

namespace Axes

open Scalar

def settle (major minor direction : Float) : Float :=
  let right := Elementary.cos direction
  let up := Elementary.sin direction
  let small : Float := place 9
  if major - minor ≤ small * major then 0
  else if right.abs < small then pi / 2
  else if up.abs < small then 0
  else if right < 0 then Elementary.atan2 (-up) (-right)
  else Elementary.atan2 up right

/-- The axes of a matrix whose products stay in range. A matrix is a stretched rotation plus a
stretched reflection. The lengths of the two add up to the larger axis, half the sum of their
angles is its direction, and the determinant is the product of the axes. -/
def ofModerate (m : Matrix2 Float) : Axes Float :=
  let turned : Point Float := ⟨(m.xx + m.yy) / 2, (m.yx - m.xy) / 2⟩
  let reflected : Point Float := ⟨(m.xx - m.yy) / 2, (m.yx + m.xy) / 2⟩
  let major := Elementary.hypot turned.x turned.y + Elementary.hypot reflected.x reflected.y
  let minor := if major == 0 then 0 else (m.xx * m.yy - m.xy * m.yx).abs / major
  ⟨major, minor, settle major minor ((turned.heading + reflected.heading) / 2)⟩

def ofDiagonal (x y : Float) : Axes Float :=
  if x.abs < y.abs then ⟨y.abs, x.abs, settle y.abs x.abs (pi / 2)⟩
  else ⟨x.abs, y.abs, settle x.abs y.abs 0⟩

def largeUnit : Float := Float.ofBits 0x6570000000000000

def isLarge (x : Float) : Bool := decide (Float.ofBits 0x5F30000000000000 < x.abs)

def ofMatrix (m : Matrix2 Float) : Axes Float :=
  let entries := [m.xx, m.xy, m.yx, m.yy]
  if !entries.all Binary64.isFinite then ⟨notANumber, notANumber, 0⟩
  else if m.xy == 0 && m.yx == 0 then ofDiagonal m.xx m.yy
  else if entries.any isLarge then
    let small := ofModerate ⟨m.xx / largeUnit, m.xy / largeUnit, m.yx / largeUnit,
      m.yy / largeUnit⟩
    ⟨small.major * largeUnit, small.minor * largeUnit, small.angle⟩
  else ofModerate m

end Axes

instance : HasAxes Float := ⟨Axes.ofMatrix⟩

/-- An ellipse in device coordinates: its radii, its rotation in degrees, and whether the sense of
rotation is turned round. -/
structure EllipseImage (α : Type) where
  radii : Point α
  rotation : α
  reversed : Bool

namespace Affine

open Scalar

variable {α : Type} [Scalar α]

def stretched (m : Affine α) (radii : Point α) (rotation : α) : Except Fault (Matrix2 α) := do
  let c ← onCircle cos rotation
  let s ← onCircle sin rotation
  return ⟨m.a * (c * radii.x) + m.c * (s * radii.x), m.a * (-s * radii.y) + m.c * (c * radii.y),
    m.b * (c * radii.x) + m.d * (s * radii.x), m.b * (-s * radii.y) + m.d * (c * radii.y)⟩

def ellipseImage? [HasAxes α] (m : Affine α) (radii : Point α) (rotation : α) :
    Except Fault (Option (EllipseImage α)) :=
  if m.isNearlyShift then .ok (some ⟨radii, toDegrees rotation, false⟩)
  else do
    let matrix ← m.stretched radii rotation
    let axes := HasAxes.axes matrix
    if ble axes.minor (place 8) then pure none
    else pure (some ⟨⟨axes.major, axes.minor⟩, toDegrees axes.angle, m.reverses⟩)

end Affine

end Linework
