import Linework.Argument
import Linework.Plane.Arc

/-!
# Groups of numbers

The flat list that a command is given falls into groups: points, curves or arcs. Relative groups
are resolved one after the other, each from where the one before it ended, and a smooth curve
gets the control point that reflects the one before it.
-/

set_option autoImplicit false

namespace Linework

open Scalar

section Groups

variable {β : Type}

def Point.pairs : List β → List (Point β)
  | x :: y :: rest => ⟨x, y⟩ :: pairs rest
  | _ => []

structure CubicTo (β : Type) where
  first : Point β
  second : Point β
  finish : Point β

/-- A quadratic curve by its control point and its end; also a smooth cubic curve, of which the
first control point is left out. -/
structure QuadraticTo (β : Type) where
  control : Point β
  finish : Point β

def CubicTo.group : List (Point β) → List (CubicTo β)
  | a :: b :: p :: rest => ⟨a, b, p⟩ :: group rest
  | _ => []

def QuadraticTo.group : List (Point β) → List (QuadraticTo β)
  | a :: p :: rest => ⟨a, p⟩ :: group rest
  | _ => []

structure ArcTo (β : Type) where
  radii : Point β
  rotation : β
  large : β
  clockwise : β
  finish : Point β

def ArcTo.group : List β → List (ArcTo β)
  | rx :: ry :: rotation :: large :: clockwise :: x :: y :: rest =>
    ⟨⟨rx, ry⟩, rotation, large, clockwise, ⟨x, y⟩⟩ :: group rest
  | _ => []

end Groups

section Resolve

variable {α : Type} [Scalar α]

def displaced : Point α → List (Point α) → List (Point α)
  | _, [] => []
  | p, d :: rest => (p + d) :: displaced (p + d) rest

namespace CubicTo

def shift (origin : Point α) (c : CubicTo α) : CubicTo α :=
  ⟨c.first + origin, c.second + origin, c.finish + origin⟩

def resolve : Point α → List (CubicTo α) → List (CubicTo α)
  | _, [] => []
  | p, c :: rest => c.shift p :: resolve (c.shift p).finish rest

end CubicTo

namespace QuadraticTo

def shift (origin : Point α) (q : QuadraticTo α) : QuadraticTo α :=
  ⟨q.control + origin, q.finish + origin⟩

def resolve : Point α → List (QuadraticTo α) → List (QuadraticTo α)
  | _, [] => []
  | p, q :: rest => q.shift p :: resolve (q.shift p).finish rest

end QuadraticTo

def ArcTo.request (a : ArcTo (Argument α)) (finish : Point α) : Except Fault (EndpointArc α) := do
  let radii ← Argument.point a.radii
  let rotation ← a.rotation.real
  return ⟨radii, rotation, a.large.isSet, a.clockwise.isSet, finish⟩

def Point.reflectIn (center p : Point α) : Point α := Point.scaleBy (whole 2) center - p

/-- Smooth cubic curves with their first control points, each reflecting the second one of the
curve before. -/
def smoothCubics (relative : Bool) :
    Point α → Point α → List (QuadraticTo α) → List (CubicTo α)
  | _, _, [] => []
  | current, control, q :: rest =>
    let s := if relative then q.shift current else q
    ⟨Point.reflectIn current control, s.control, s.finish⟩ ::
      smoothCubics relative s.finish s.control rest

def smoothQuadratics (relative : Bool) :
    Point α → Point α → List (Point α) → List (QuadraticTo α)
  | _, _, [] => []
  | current, control, z :: rest =>
    let finish := if relative then z + current else z
    ⟨Point.reflectIn current control, finish⟩ ::
      smoothQuadratics relative finish (Point.reflectIn current control) rest

end Resolve

end Linework
