import Mathlib
import Linework.Proofs.Plane.RealPoint

/-!
# Running along an ellipse

As the angle grows, a point of an ellipse moves along the radius that is a quarter turn further on.
The angle may itself go from a start at some pace, in either direction.
-/

set_option autoImplicit false

namespace Linework

namespace Ellipse

/-- How a point that runs along an ellipse moves as the angle grows. -/
noncomputable def velocity (e : Ellipse ℝ) (θ : ℝ) : Point ℝ :=
  Point.onUnitCircle e.rotation * ⟨-(e.radii.x * Real.sin θ), e.radii.y * Real.cos θ⟩

theorem hasDerivAt_point (e : Ellipse ℝ) (θ : ℝ) :
    HasDerivAt (fun φ => (e.point φ).x) (e.velocity θ).x θ ∧
      HasDerivAt (fun φ => (e.point φ).y) (e.velocity θ).y θ := by
  have hx := (Real.hasDerivAt_cos θ).const_mul e.radii.x
  have hy := (Real.hasDerivAt_sin θ).const_mul e.radii.y
  simp only [point, velocity, Point.onUnitCircle_real, Point.add_x, Point.add_y, Point.mul_x,
    Point.mul_y, ← mul_neg]
  constructor
  · exact ((hx.const_mul _).sub (hy.const_mul _)).add_const _
  · exact ((hy.const_mul _).add (hx.const_mul _)).add_const _

theorem velocity_add_center (e : Ellipse ℝ) (θ : ℝ) :
    e.velocity θ + e.center = e.point (θ + Real.pi / 2) := by
  rw [velocity, point, Real.cos_add_pi_div_two, Real.sin_add_pi_div_two, mul_neg]

theorem hasDerivAt_point_add_mul (e : Ellipse ℝ) (θ δ : ℝ) :
    HasDerivAt (fun t => (e.point (θ + t * δ)).x) ((e.velocity θ).x * δ) 0 ∧
      HasDerivAt (fun t => (e.point (θ + t * δ)).y) ((e.velocity θ).y * δ) 0 := by
  have hangle : HasDerivAt (fun t : ℝ => θ + t * δ) δ 0 := by
    simpa using ((hasDerivAt_id (0 : ℝ)).mul_const δ).const_add θ
  have hstart : θ = θ + 0 * δ := by ring
  obtain ⟨hx, hy⟩ := e.hasDerivAt_point θ
  exact ⟨hx.comp_of_eq 0 hangle hstart, hy.comp_of_eq 0 hangle hstart⟩

end Ellipse

end Linework
