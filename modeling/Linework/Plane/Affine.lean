import Linework.Plane.Point

/-!
# Affine transforms

A transform has six numbers: the images of the two axes and that of the origin. Composing keeps
the products with the last row of the matrix, so that what is no number spreads as in a full
product of matrices.
-/

set_option autoImplicit false

namespace Linework

structure Affine (α : Type) where
  a : α
  b : α
  c : α
  d : α
  e : α
  f : α
  deriving DecidableEq

namespace Affine

open Scalar

variable {α : Type} [Scalar α]

def identity : Affine α := ⟨whole 1, whole 0, whole 0, whole 1, whole 0, whole 0⟩

def shift (offset : Point α) : Affine α :=
  ⟨whole 1, whole 0, whole 0, whole 1, offset.x, offset.y⟩

def scaling (factors : Point α) : Affine α :=
  ⟨factors.x, whole 0, whole 0, factors.y, whole 0, whole 0⟩

def rotation (angle : α) : Except Fault (Affine α) := do
  let c ← onCircle cos angle
  let s ← onCircle sin angle
  return ⟨c, s, -s, c, whole 0, whole 0⟩

def apply (m : Affine α) (p : Point α) : Point α :=
  ⟨m.a * p.x + m.c * p.y + m.e * whole 1, m.b * p.x + m.d * p.y + m.f * whole 1⟩

/-- The transform that applies `n` first and then `m`. -/
def compose (m n : Affine α) : Affine α where
  a := m.a * n.a + m.c * n.b + m.e * whole 0
  b := m.b * n.a + m.d * n.b + m.f * whole 0
  c := m.a * n.c + m.c * n.d + m.e * whole 0
  d := m.b * n.c + m.d * n.d + m.f * whole 0
  e := m.a * n.e + m.c * n.f + m.e * whole 1
  f := m.b * n.e + m.d * n.f + m.f * whole 1

def ratio (x y : α) : α :=
  if isFinite (whole 1 / y) then x * (whole 1 / y) else x / y

/-- The determinant of the linear part, by elimination with the larger entry of the first column;
so it keeps its sign where the products of the entries are infinite. -/
def determinant (m : Affine α) : α :=
  if blt (magnitude m.a) (magnitude m.b) then -(m.b * (m.c - ratio m.a m.b * m.d))
  else if isZero m.a then whole 0
  else m.a * (m.d - ratio m.b m.a * m.c)

def reverses (m : Affine α) : Bool := blt m.determinant (whole 0)

def isNearlyShift (m : Affine α) : Bool :=
  ble (magnitude (m.a - whole 1)) (place 8 + place 5) && ble (magnitude m.b) (place 8) &&
    ble (magnitude m.c) (place 8) && ble (magnitude (m.d - whole 1)) (place 8 + place 5)

end Affine

end Linework
