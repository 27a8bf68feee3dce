import Linework.Fault
import Linework.Number.Scalar

/-!
# Points of the plane

A point is also a number: adding displaces, multiplying turns and stretches. Products and
quotients keep to one order of evaluation, which matters as soon as a coordinate is infinite.
-/

set_option autoImplicit false

namespace Linework

structure Point (α : Type) where
  x : α
  y : α
  deriving DecidableEq

def Scalar.divide {α : Type} [Scalar α] (a b : α) : Except Fault α :=
  if isZero b then .error .divisionByZero else .ok (a / b)

def Scalar.onCircle {α : Type} [Scalar α] (f : α → α) (angle : α) : Except Fault α :=
  if isInfinite angle then .error .outsideDomain else .ok (f angle)

namespace Point

open Scalar

variable {α : Type} [Scalar α]

def beq (p q : Point α) : Bool := Scalar.beq p.x q.x && Scalar.beq p.y q.y

def zero : Point α := ⟨whole 0, whole 0⟩

def ofReal (x : α) : Point α := ⟨x, whole 0⟩

def unitY : Point α := ⟨whole 0, whole 1⟩

instance : Add (Point α) := ⟨fun p q => ⟨p.x + q.x, p.y + q.y⟩⟩

instance : Sub (Point α) := ⟨fun p q => ⟨p.x - q.x, p.y - q.y⟩⟩

instance : Mul (Point α) := ⟨fun p q => ⟨p.x * q.x - p.y * q.y, p.x * q.y + p.y * q.x⟩⟩

def scaleBy (k : α) (p : Point α) : Point α := ofReal k * p

/-- A number as a point on the second axis. -/
def upward (k : α) : Point α := unitY * ofReal k

/-- The quotient of two points, after dividing through by the larger coordinate of the divisor. -/
def div (p q : Point α) : Except Fault (Point α) :=
  let sizeX := magnitude q.x
  let sizeY := magnitude q.y
  if ble sizeY sizeX then
    if isZero sizeX then .error .divisionByZero
    else
      let ratio := q.y / q.x
      let denom := q.x + q.y * ratio
      .ok ⟨(p.x + p.y * ratio) / denom, (p.y - p.x * ratio) / denom⟩
  else if ble sizeX sizeY then
    let ratio := q.x / q.y
    let denom := q.x * ratio + q.y
    .ok ⟨(p.x * ratio + p.y) / denom, (p.y * ratio - p.x) / denom⟩
  else .ok ⟨q.x - q.x + (q.y - q.y), q.x - q.x + (q.y - q.y)⟩

def divBy (p : Point α) (k : α) : Except Fault (Point α) := p.div (ofReal k)

def length (p : Point α) : Except Fault α :=
  let r := hypot p.x p.y
  if !isFinite r && isFinite p.x && isFinite p.y then .error .overflow else .ok r

def isCloseWithin (relative absolute : α) (p q : Point α) : Except Fault Bool := do
  let distance ← (p - q).length
  let size ← q.length
  return blt distance (absolute + relative * size)

def isClose (p q : Point α) : Except Fault Bool := isCloseWithin (place 5) (place 8) p q

end Point

end Linework
