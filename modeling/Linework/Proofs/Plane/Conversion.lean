import Linework.Plane.Arc
import Linework.Proofs.Failure
import Linework.Proofs.Number.Alike

/-!
# How the conversion of an arc fails

The arc between two different points has a centre unless a radius is zero. On doubles the way
there can still fail, where a divisor has become zero or a length is too large to be held.
-/

set_option autoImplicit false

namespace Linework

open Scalar

def Fault.Arithmetic (e : Fault) : Prop := e = .divisionByZero ∨ e = .overflow

section Arithmetic

variable {α : Type} [Scalar α]

theorem onlyFails_divide (a b : α) : OnlyFails Fault.Arithmetic (divide a b) := by
  rw [divide]
  split
  · exact onlyFails_error (.inl rfl)
  · exact onlyFails_ok _

namespace Point

theorem onlyFails_div (p q : Point α) : OnlyFails Fault.Arithmetic (p.div q) := by
  rw [div]
  split
  · split
    · exact onlyFails_error (.inl rfl)
    · exact onlyFails_ok _
  · split <;> exact onlyFails_ok _

theorem onlyFails_length (p : Point α) : OnlyFails Fault.Arithmetic p.length := by
  rw [length]
  split
  · exact onlyFails_error (.inr rfl)
  · exact onlyFails_ok _

theorem onlyFails_angleTo (u v : Point α) : OnlyFails Fault.Arithmetic (u.angleTo v) := by
  apply onlyFails_bind (onlyFails_length u)
  intro sizeU
  apply onlyFails_bind (onlyFails_length v)
  intro sizeV
  exact onlyFails_bind (onlyFails_divide _ _) fun _ => onlyFails_ok _

end Point

namespace EndpointArc

theorem onlyFails_excess (radii p : Point α) : OnlyFails Fault.Arithmetic (excess radii p) :=
  onlyFails_bind (onlyFails_divide _ _) fun _ =>
    onlyFails_bind (onlyFails_divide _ _) fun _ => onlyFails_ok _

theorem onlyFails_innerCenter (radii p : Point α) (otherSide : Bool) :
    OnlyFails Fault.Arithmetic (innerCenter radii p otherSide) := by
  apply onlyFails_bind (onlyFails_divide _ _)
  intro square
  apply onlyFails_bind (onlyFails_divide _ _)
  intro across
  exact onlyFails_bind (Point.onlyFails_div _ _) fun _ => onlyFails_ok _

theorem onlyFails_fit (radii p : Point α) (otherSide : Bool) :
    OnlyFails Fault.Arithmetic (fit radii p otherSide true) := by
  apply onlyFails_bind (onlyFails_excess radii p)
  intro square
  split
  · exact onlyFails_ok _
  · exact onlyFails_bind (onlyFails_innerCenter radii p otherSide) fun _ => onlyFails_ok _

theorem onlyFails_inRadii (radii inner p : Point α) :
    OnlyFails Fault.Arithmetic (inRadii radii inner p) :=
  onlyFails_bind (onlyFails_divide _ _) fun _ =>
    onlyFails_bind (onlyFails_divide _ _) fun _ => onlyFails_ok _

theorem onlyFails_toArc_of_fits (request : EndpointArc α) (start : Point α)
    (hne : start.beq request.finish = false)
    (hradii : (isZero (magnitude request.radii.x) || isZero (magnitude request.radii.y)) = false) :
    OnlyFails Fault.Arithmetic (request.toArc start true) := by
  simp only [toArc, hne, hradii, Bool.false_eq_true, if_false]
  apply onlyFails_bind (Point.onlyFails_div _ _)
  intro half
  apply onlyFails_bind (Point.onlyFails_div _ _)
  intro p
  apply onlyFails_bind (onlyFails_fit _ p _)
  rintro ⟨radii, inner⟩
  apply onlyFails_bind (Point.onlyFails_div _ _)
  intro middle
  apply onlyFails_bind (onlyFails_inRadii radii inner p)
  intro u
  apply onlyFails_bind (onlyFails_inRadii radii inner _)
  intro v
  apply onlyFails_bind (Point.onlyFails_angleTo _ u)
  intro startAngle
  exact onlyFails_bind (Point.onlyFails_angleTo u v) fun _ => onlyFails_ok _

/-- What is left that a conversion can fail with once it is asked for with different ends and with
radii that are not zero. -/
theorem onlyFails_toArc (request : EndpointArc Float) (start : Point Float)
    (hx : isZero request.radii.x = false) (hy : isZero request.radii.y = false)
    (hne : start.beq request.finish = false) :
    OnlyFails Fault.Arithmetic (request.toArc start true) := by
  refine onlyFails_toArc_of_fits request start hne ?_
  rw [Binary64.isZero_magnitude, Binary64.isZero_magnitude, hx, hy]
  rfl

end EndpointArc

end Arithmetic

end Linework
