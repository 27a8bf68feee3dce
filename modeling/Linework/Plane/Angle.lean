import Linework.Plane.Point
import Linework.Value

/-!
# Angles

Angles are kept in radians and grow from the first axis towards the second, which is clockwise
where the second axis points down. They may be given in degrees.
-/

set_option autoImplicit false

namespace Linework

inductive AngleUnit where
  | radians
  | degrees
  deriving DecidableEq

namespace AngleUnit

def name : AngleUnit → String
  | radians => "radians"
  | degrees => "degrees"

def ofValue (v : Value) : Except Fault AngleUnit :=
  match v with
  | .text "radians" => .ok radians
  | .text "degrees" => .ok degrees
  | v => .error (.unsupportedUnit v.toText)

def toRadians {α : Type} [Scalar α] (unit : AngleUnit) (angle : α) : α :=
  match unit with
  | radians => angle
  | degrees => angle * Scalar.pi / Scalar.whole 180

end AngleUnit

namespace Point

open Scalar

variable {α : Type} [Scalar α]

def onUnitCircle (angle : α) : Point α :=
  -- Adding zero takes the sign from a negative zero.
  ⟨cos (whole 0 + angle), sin (whole 0 + angle)⟩

def rotateAbout (origin : Point α) (angle : α) (p : Point α) : Point α :=
  onUnitCircle angle * (p - origin) + origin

def rotate (angle : α) (p : Point α) : Point α := rotateAbout zero angle p

/-- The signed angle, at most half a turn, that takes the direction of `u` to that of `v`. The
cosine is brought back into its range, which rounding may have left. -/
def angleTo (u v : Point α) : Except Fault α := do
  let dot := u.x * v.x + u.y * v.y
  let cross := u.x * v.y - u.y * v.x
  let sizeU ← u.length
  let sizeV ← v.length
  let cosine ← divide dot (sizeU * sizeV)
  let angle := acos (clamp cosine (-whole 1) (whole 1))
  return if ble (whole 0) cross then angle else -angle

def direction (p : Point α) : Except Fault (Point α) := do
  let size ← p.length
  if isZero size then throw .zeroVector
  p.divBy size

def heading (p : Point α) : α := atan2 p.y p.x

end Point

end Linework
