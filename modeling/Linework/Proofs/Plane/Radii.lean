import Linework.Plane.Arc
import Linework.Proofs.Act
import Linework.Proofs.Number.NotBelow

/-!
# The radii of an arc between two points

The radii that are asked for may have any sign. Those of the arc are never below zero, however
they come about.
-/

set_option autoImplicit false

namespace Linework

open Scalar

namespace Point

/-- Not below zero in either coordinate, as radii have to be. -/
structure NotBelowZero {α : Type} [Scalar α] (p : Point α) : Prop where
  x : blt p.x (whole 0) = false
  y : blt p.y (whole 0) = false

theorem notBelowZero_ofReal_add_upward {p : Point Float} (h : p.NotBelowZero) :
    (ofReal p.x + upward p.y).NotBelowZero := by
  have hz : blt (whole 0 : Float) (whole 0) = false := Binary64.blt_zero_iff.mpr (.zero _)
  have ho : blt (whole 1 : Float) (whole 0) = false := Binary64.blt_zero_iff.mpr (.finite _ _ _)
  refine ⟨Binary64.blt_zero_add h.x ?_, Binary64.blt_zero_add hz ?_⟩
  · exact Binary64.blt_zero_sub_zero (Binary64.blt_zero_mul hz h.y) Binary64.unpack_one_mul_zero
  · exact Binary64.blt_zero_add (Binary64.blt_zero_mul hz hz) (Binary64.blt_zero_mul ho h.y)

end Point

namespace EndpointArc

theorem fit_notBelowZero {radii p fitted inner : Point Float} {otherSide autoscale : Bool}
    (h : radii.NotBelowZero) (hf : fit radii p otherSide autoscale = .ok (fitted, inner)) :
    fitted.NotBelowZero := by
  obtain ⟨square, -, hf⟩ := exists_of_bind_ok hf
  split at hf
  · split at hf
    · cases hf
      exact ⟨Binary64.blt_zero_mul h.x (Binary64.blt_zero_sqrt _),
        Binary64.blt_zero_mul h.y (Binary64.blt_zero_sqrt _)⟩
    · cases hf
  · obtain ⟨z, -, hf⟩ := exists_of_bind_ok hf
    cases hf
    exact h

theorem toArc_radii_notBelowZero {request : EndpointArc Float} {start : Point Float}
    {autoscale : Bool} {a : Arc Float} (h : request.toArc start autoscale = .ok a) :
    a.ellipse.radii.NotBelowZero := by
  rw [toArc] at h
  split at h
  · cases h
  split at h
  · cases h
  obtain ⟨half, -, h⟩ := exists_of_bind_ok h
  obtain ⟨p, -, h⟩ := exists_of_bind_ok h
  obtain ⟨⟨radii, inner⟩, hf, h⟩ := exists_of_bind_ok h
  obtain ⟨middle, -, h⟩ := exists_of_bind_ok h
  obtain ⟨u, -, h⟩ := exists_of_bind_ok h
  obtain ⟨v, -, h⟩ := exists_of_bind_ok h
  obtain ⟨startAngle, -, h⟩ := exists_of_bind_ok h
  obtain ⟨least, -, h⟩ := exists_of_bind_ok h
  have hasked : Point.NotBelowZero
      (⟨magnitude request.radii.x, magnitude request.radii.y⟩ : Point Float) :=
    ⟨Binary64.blt_zero_magnitude _, Binary64.blt_zero_magnitude _⟩
  rw [← Except.ok.inj h]
  exact Point.notBelowZero_ofReal_add_upward (fit_notBelowZero hasked hf)

end EndpointArc

end Linework
