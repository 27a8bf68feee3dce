import Linework.Number.Decimal
import Linework.Number.Elementary

/-!
# Scalars

The geometry is written once for every kind of number that can stand for a coordinate. `Scalar`
names what it needs; the instance here is that of the doubles, where a comparison with a value
that is no number is false and a result may fail to be finite.
-/

set_option autoImplicit false

namespace Linework

class Scalar (α : Type) extends Add α, Sub α, Mul α, Div α, Neg α where
  ofDecimal : Decimal → α
  pi : α
  isFinite : α → Bool
  beq : α → α → Bool
  blt : α → α → Bool
  ble : α → α → Bool
  sqrt : α → α
  sin : α → α
  cos : α → α
  tan : α → α
  acos : α → α
  atan2 : α → α → α
  hypot : α → α → α
  floorMod : α → α → α

instance : Scalar Float where
  ofDecimal := Decimal.toFloat
  pi := Float.ofBits 0x400921FB54442D18
  isFinite := Binary64.isFinite
  beq x y := x == y
  blt x y := decide (x < y)
  ble x y := decide (x ≤ y)
  sqrt := Float.sqrt
  sin := Elementary.sin
  cos := Elementary.cos
  tan := Elementary.tan
  acos := Elementary.acos
  atan2 := Elementary.atan2
  hypot := Elementary.hypot
  floorMod := Elementary.floorMod

namespace Scalar

variable {α : Type} [Scalar α]

def whole (n : Nat) : α := ofDecimal ⟨false, n, 0⟩

def place (n : Nat) : α := ofDecimal ⟨false, 1, -(n : Int)⟩

def notANumber : α := whole 0 / whole 0

def infinite : α := whole 1 / whole 0

def isZero (x : α) : Bool := beq x (whole 0)

def isNaN (x : α) : Bool := !beq x x

def isInfinite (x : α) : Bool := !isFinite x && !isNaN x

def magnitude (x : α) : α := if blt x (whole 0) then -x else x

def fullTurn : α := whole 2 * pi

/-- `x` brought between two bounds, the upper one counting last. What is no number stays so. -/
def clamp (x low high : α) : α :=
  let raised := if isNaN x then x else if isNaN low then low else if blt x low then low else x
  if isNaN raised then raised
  else if isNaN high then high
  else if blt high raised then high
  else raised

def atLeastZero (x : α) : α := if blt x (whole 0) then whole 0 else x

def toDegrees (x : α) : α := x * (whole 180 / pi)

def ofDegrees (x : α) : α := x * (pi / whole 180)

def isClose (x y : α) : Bool :=
  blt (magnitude (x - y)) (place 8 + place 5 * magnitude y)

end Scalar

end Linework
