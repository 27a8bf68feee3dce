import Mathlib
import Linework.Canvas.Oval
import Linework.Proofs.Plane.OvalPieces
import Linework.Proofs.Plane.Turn
import Linework.Proofs.Plane.Velocity

/-!
# Rounded corners

An arc that rounds a corner is a part of a circle that touches both sides. Computed exactly, its
ends are seen from the centre at right angles to the sides, to the one hand at the first side and
to the other hand at the second. Everything else follows: the ends are where the circle touches,
the sweep is half a turn less the angle of the corner, and the arc goes on the way the first side
came.
-/

set_option autoImplicit false

namespace Linework

open Scalar

open scoped RealInnerProductSpace

namespace Point

variable {p q u v : Point ℝ}

theorem inner_toComplex (p q : Point ℝ) : ⟪p.toComplex, q.toComplex⟫ = p.x * q.x + p.y * q.y := by
  rw [Complex.inner]
  simp [toComplex, mul_comm]

theorem scaleBy_real (k : ℝ) (p : Point ℝ) : scaleBy k p = ⟨k * p.x, k * p.y⟩ := by
  ext <;> simp [scaleBy]

theorem magnitude_angleTo (hu : u.toComplex ≠ 0) (hv : v.toComplex ≠ 0) :
    ∃ angle, u.angleTo v = .ok angle ∧
      |angle| = InnerProductGeometry.angle u.toComplex v.toComplex := by
  refine ⟨_, angleTo_eq_arg hu hv, ?_⟩
  rw [quotient, ← Complex.angle_eq_abs_arg hv hu, InnerProductGeometry.angle_comm]

theorem cos_heading (hp : p.toComplex ≠ 0) : Real.cos p.heading = p.x / ‖p.toComplex‖ :=
  Complex.cos_arg hp

theorem sin_heading (p : Point ℝ) : Real.sin p.heading = p.y / ‖p.toComplex‖ :=
  Complex.sin_arg p.toComplex

end Point

namespace Ellipse

noncomputable def circle (center : Point ℝ) (r : ℝ) : Ellipse ℝ := ⟨center, ⟨r, r⟩, whole 0⟩

theorem point_circle (center : Point ℝ) (r θ : ℝ) :
    (circle center r).point θ = ⟨r * Real.cos θ, r * Real.sin θ⟩ + center := by
  rw [point, circle, Point.onUnitCircle_real, real_whole, Nat.cast_zero, Real.cos_zero,
    Real.sin_zero]
  ext <;> simp

theorem point_heading {center p : Point ℝ} {r : ℝ} (hr : 0 < r)
    (h : ‖(p - center).toComplex‖ = r) : (circle center r).point (p - center).heading = p := by
  have hne : (p - center).toComplex ≠ 0 := by
    rw [← norm_pos_iff, h]
    exact hr
  rw [point_circle, Point.cos_heading hne, Point.sin_heading, h, mul_div_cancel₀ _ hr.ne',
    mul_div_cancel₀ _ hr.ne']
  ext <;> simp

theorem velocity_circle (center : Point ℝ) (r θ : ℝ) :
    (circle center r).velocity θ = ⟨-(r * Real.sin θ), r * Real.cos θ⟩ := by
  rw [velocity, circle, Point.onUnitCircle_real, real_whole, Nat.cast_zero, Real.cos_zero,
    Real.sin_zero]
  ext <;> simp

end Ellipse

/-- Unit vectors along the sides of a corner that encloses the angle `θ`; `side` tells whether the
second one is to the one hand of the first or to the other. -/
structure Sides (u v : Point ℝ) (θ side : ℝ) : Prop where
  pos : 0 < θ
  lt_pi : θ < Real.pi
  unit : u.x ^ 2 + u.y ^ 2 = 1
  dot : u.x * v.x + u.y * v.y = Real.cos θ
  cross : u.x * v.y - u.y * v.x = side * Real.sin θ
  side_eq : side = 1 ∨ side = -1

theorem half_eq (θ : ℝ) : θ / whole 2 = θ / 2 := by simp

theorem tan_half (θ : ℝ) : tan (θ / whole 2) = Real.sin (θ / 2) / Real.cos (θ / 2) := by
  rw [half_eq]
  exact Real.tan_eq_sin_div_cos (θ / 2)

namespace Sides

variable {u v p1 : Point ℝ} {θ side r : ℝ}

theorem side_sq (h : Sides u v θ side) : side ^ 2 = 1 := by
  rcases h.side_eq with rfl | rfl <;> norm_num

theorem second_eq (h : Sides u v θ side) :
    v = ⟨Real.cos θ * u.x - side * Real.sin θ * u.y,
      Real.cos θ * u.y + side * Real.sin θ * u.x⟩ := by
  rw [← h.dot, ← h.cross]
  ext
  · linear_combination -v.x * h.unit
  · linear_combination -v.y * h.unit

theorem symm (h : Sides u v θ side) : Sides v u θ (-side) where
  pos := h.pos
  lt_pi := h.lt_pi
  unit := by
    have hsq := Real.sin_sq_add_cos_sq θ
    have hprod : (v.x ^ 2 + v.y ^ 2) * (u.x ^ 2 + u.y ^ 2) =
        (u.x * v.x + u.y * v.y) ^ 2 + (u.x * v.y - u.y * v.x) ^ 2 := by ring
    rw [h.unit, h.dot, h.cross, mul_one, mul_pow, h.side_sq, one_mul] at hprod
    linarith
  dot := by linarith [h.dot]
  cross := by linarith [h.cross]
  side_eq := by
    rcases h.side_eq with rfl | rfl <;> simp

theorem half_pos (h : Sides u v θ side) : 0 < Real.sin (θ / 2) ∧ 0 < Real.cos (θ / 2) := by
  have h0 := h.pos
  have hpi := h.lt_pi
  exact ⟨Real.sin_pos_of_pos_of_lt_pi (by linarith) (by linarith),
    Real.cos_pos_of_mem_Ioo ⟨by linarith, by linarith⟩⟩

theorem tan_half_pos (h : Sides u v θ side) : (0 : ℝ) < tan (θ / whole 2) := by
  rw [tan_half]
  exact div_pos h.half_pos.1 h.half_pos.2

theorem norm_add (h : Sides u v θ side) : ‖(u + v).toComplex‖ = 2 * Real.cos (θ / 2) := by
  have hdouble : Real.cos θ = 2 * Real.cos (θ / 2) ^ 2 - 1 := by
    rw [← Real.cos_two_mul, mul_div_cancel₀ θ two_ne_zero]
  have hsq : (u + v).x ^ 2 + (u + v).y ^ 2 = (2 * Real.cos (θ / 2)) ^ 2 := by
    simp only [Point.add_x, Point.add_y]
    linear_combination h.unit + h.symm.unit + 2 * h.dot + 2 * hdouble
  rw [Point.norm_toComplex, hsq, Real.sqrt_sq (by linarith [h.half_pos.2])]

end Sides

noncomputable def Point.unit (p : Point ℝ) : Point ℝ :=
  ⟨p.x / ‖p.toComplex‖, p.y / ‖p.toComplex‖⟩

/-- Where a circle of radius `r` touches a side with the direction `u` of the corner `p1`. -/
noncomputable def touchPoint (p1 u : Point ℝ) (θ r : ℝ) : Point ℝ :=
  p1 + Point.scaleBy (r / tan (θ / whole 2)) u

noncomputable def filletCenter (p1 u v : Point ℝ) (θ r : ℝ) : Point ℝ :=
  p1 + Point.scaleBy (r / sin (θ / whole 2)) (u + v).unit

theorem filletCenter_comm (p1 u v : Point ℝ) (θ r : ℝ) :
    filletCenter p1 u v θ r = filletCenter p1 v u θ r := by
  have hsum : u + v = v + u := Point.ext (add_comm u.x v.x) (add_comm u.y v.y)
  rw [filletCenter, filletCenter, hsum]

namespace Sides

variable {u v p1 : Point ℝ} {θ side r : ℝ}

/-- From the centre the touching point is seen at right angles to the side. -/
theorem touchPoint_sub (h : Sides u v θ side) (p1 : Point ℝ) (r : ℝ) :
    touchPoint p1 u θ r - filletCenter p1 u v θ r = ⟨side * r * u.y, -(side * r * u.x)⟩ := by
  obtain ⟨hs, hc⟩ := h.half_pos
  have hcos : Real.cos θ = 2 * Real.cos (θ / 2) ^ 2 - 1 := by
    rw [← Real.cos_two_mul, mul_div_cancel₀ θ two_ne_zero]
  have hsin : Real.sin θ = 2 * Real.sin (θ / 2) * Real.cos (θ / 2) := by
    rw [← Real.sin_two_mul, mul_div_cancel₀ θ two_ne_zero]
  rw [touchPoint, filletCenter, Point.unit, h.norm_add, tan_half, half_eq, h.second_eq, hcos, hsin]
  simp only [Point.scaleBy_real, real_sin]
  ext
  · simp only [Point.sub_x, Point.add_x]
    field_simp
    ring
  · simp only [Point.sub_y, Point.add_y]
    field_simp
    ring

theorem norm_touchPoint_sub (h : Sides u v θ side) (p1 : Point ℝ) (hr : 0 < r) :
    ‖(touchPoint p1 u θ r - filletCenter p1 u v θ r).toComplex‖ = r := by
  have hsq : (side * r * u.y) ^ 2 + (-(side * r * u.x)) ^ 2 = r ^ 2 := by
    linear_combination r ^ 2 * side ^ 2 * h.unit + r ^ 2 * h.side_sq
  rw [h.touchPoint_sub, Point.norm_toComplex, hsq, Real.sqrt_sq hr.le]

theorem heading_touchPoint (h : Sides u v θ side) (p1 : Point ℝ) (hr : 0 < r) :
    Real.cos (touchPoint p1 u θ r - filletCenter p1 u v θ r).heading = side * u.y ∧
      Real.sin (touchPoint p1 u θ r - filletCenter p1 u v θ r).heading = -(side * u.x) := by
  have hnorm := h.norm_touchPoint_sub p1 hr
  have hne : (touchPoint p1 u θ r - filletCenter p1 u v θ r).toComplex ≠ 0 := by
    rw [← norm_pos_iff, hnorm]
    exact hr
  rw [Point.cos_heading hne, Point.sin_heading, hnorm, h.touchPoint_sub]
  constructor
  · field_simp
  · field_simp

theorem norm_touchPoint_sub' (h : Sides u v θ side) (p1 : Point ℝ) (hr : 0 < r) :
    ‖(touchPoint p1 v θ r - filletCenter p1 u v θ r).toComplex‖ = r := by
  rw [filletCenter_comm]
  exact h.symm.norm_touchPoint_sub p1 hr

theorem abs_sweep (h : Sides u v θ side) : |-(side * (Real.pi - θ))| = Real.pi - θ := by
  have hpi : 0 < Real.pi - θ := by linarith [h.lt_pi]
  rcases h.side_eq with rfl | rfl
  · rw [one_mul, abs_neg, abs_of_pos hpi]
  · rw [neg_one_mul, neg_neg, abs_of_pos hpi]

theorem heading_sub_heading (h : Sides u v θ side) (p1 : Point ℝ) (hr : 0 < r) :
    let first := (touchPoint p1 u θ r - filletCenter p1 u v θ r).heading
    let last := (touchPoint p1 v θ r - filletCenter p1 u v θ r).heading
    Real.cos (last - first) = Real.cos (-(side * (Real.pi - θ))) ∧
      Real.sin (last - first) = Real.sin (-(side * (Real.pi - θ))) := by
  intro first last
  have hside := h.side_sq
  obtain ⟨hca, hsa⟩ := h.heading_touchPoint p1 hr
  obtain ⟨hcb, hsb⟩ := h.symm.heading_touchPoint p1 hr
  rw [filletCenter_comm] at hcb hsb
  constructor
  · rw [← Real.cos_abs (-_), h.abs_sweep, Real.cos_pi_sub, Real.cos_sub, hca, hsa, hcb, hsb,
      ← h.dot]
    linear_combination -(u.x * v.x + u.y * v.y) * hside
  · have hsin : Real.sin (-(side * (Real.pi - θ))) = -(side * Real.sin θ) := by
      rcases h.side_eq with rfl | rfl <;> simp [Real.sin_pi_sub]
    rw [hsin, Real.sin_sub, hca, hsa, hcb, hsb, ← h.cross]
    linear_combination -(u.x * v.y - u.y * v.x) * hside

theorem sweep_eq (h : Sides u v θ side) (p1 : Point ℝ) (hr : 0 < r) :
    sweepBetween (touchPoint p1 u θ r - filletCenter p1 u v θ r).heading
        (touchPoint p1 v θ r - filletCenter p1 u v θ r).heading
        (blt (-(side * (Real.pi - θ))) (whole 0)) =
      -(side * (Real.pi - θ)) := by
  have h0 := h.pos
  have hpi := h.lt_pi
  have hfirst := Complex.arg_mem_Ioc (touchPoint p1 u θ r - filletCenter p1 u v θ r).toComplex
  have hlast := Complex.arg_mem_Ioc (touchPoint p1 v θ r - filletCenter p1 u v θ r).toComplex
  obtain ⟨hcos, hsin⟩ := h.heading_sub_heading p1 hr
  refine sweepBetween_eq ?_ ?_ ?_ hcos hsin
  · change |Complex.arg (touchPoint p1 v θ r - filletCenter p1 u v θ r).toComplex -
      Complex.arg (touchPoint p1 u θ r - filletCenter p1 u v θ r).toComplex| < _
    rw [abs_lt]
    constructor <;> linarith [hfirst.1, hfirst.2, hlast.1, hlast.2]
  · rw [← abs_pos, h.abs_sweep]
    linarith
  · rw [h.abs_sweep]
    linarith

theorem mem_orthRadius (h : Sides u v θ side) (p1 : Point ℝ) (r k : ℝ) :
    (p1 + Point.scaleBy k u).toComplex ∈
      (⟨(filletCenter p1 u v θ r).toComplex, r⟩ : EuclideanGeometry.Sphere ℂ).orthRadius
        (touchPoint p1 u θ r).toComplex := by
  rw [EuclideanGeometry.Sphere.mem_orthRadius_iff_inner_left]
  change ⟪(p1 + Point.scaleBy k u).toComplex - (touchPoint p1 u θ r).toComplex,
    (touchPoint p1 u θ r).toComplex - (filletCenter p1 u v θ r).toComplex⟫ = 0
  rw [← Point.toComplex_sub, ← Point.toComplex_sub, h.touchPoint_sub, Point.inner_toComplex,
    touchPoint]
  simp only [Point.sub_x, Point.sub_y, Point.add_x, Point.add_y, Point.scaleBy_real]
  ring

theorem isTangentAt (h : Sides u v θ side) {q : Point ℝ} {k : ℝ} (hk : k ≠ 0)
    (hq : q = p1 + Point.scaleBy k u) (hr : 0 < r) :
    (⟨(filletCenter p1 u v θ r).toComplex, r⟩ : EuclideanGeometry.Sphere ℂ).IsTangentAt
      (touchPoint p1 u θ r).toComplex line[ℝ, p1.toComplex, q.toComplex] where
  mem_sphere := by
    rw [EuclideanGeometry.mem_sphere, dist_eq_norm, ← Point.toComplex_sub]
    exact h.norm_touchPoint_sub p1 hr
  mem_space := by
    have hmap : (touchPoint p1 u θ r).toComplex =
        AffineMap.lineMap p1.toComplex q.toComplex (r / tan (θ / whole 2) / k) := by
      rw [AffineMap.lineMap_apply, hq, touchPoint, vsub_eq_sub, vadd_eq_add, Point.toComplex_add,
        Point.toComplex_add, add_sub_cancel_left, add_comm]
      congr 1
      apply Complex.ext
      · simp [Point.scaleBy_real]
        field_simp
      · simp [Point.scaleBy_real]
        field_simp
    rw [hmap]
    exact AffineMap.lineMap_mem_affineSpan_pair _ _ _
  le_orthRadius := by
    have hp1 : p1 + Point.scaleBy 0 u = p1 := by
      ext <;> simp [Point.scaleBy_real]
    have hcorner := h.mem_orthRadius p1 r 0
    have hside := h.mem_orthRadius p1 r k
    rw [hp1] at hcorner
    rw [← hq] at hside
    exact affineSpan_pair_le_of_mem_of_mem hcorner hside

theorem hasDerivAt_point (h : Sides u v θ side) (p1 : Point ℝ) (hr : 0 < r) :
    let path (t : ℝ) := (Ellipse.circle (filletCenter p1 u v θ r) r).point
      ((touchPoint p1 u θ r - filletCenter p1 u v θ r).heading + t * -(side * (Real.pi - θ)))
    HasDerivAt (fun t => (path t).x) (-(r * (Real.pi - θ) * u.x)) 0 ∧
      HasDerivAt (fun t => (path t).y) (-(r * (Real.pi - θ) * u.y)) 0 := by
  intro path
  obtain ⟨hcos, hsin⟩ := h.heading_touchPoint p1 hr
  have hside := h.side_sq
  obtain ⟨hx, hy⟩ := (Ellipse.circle (filletCenter p1 u v θ r) r).hasDerivAt_point_add_mul
    (touchPoint p1 u θ r - filletCenter p1 u v θ r).heading (-(side * (Real.pi - θ)))
  rw [Ellipse.velocity_circle] at hx hy
  refine ⟨hx.congr_deriv ?_, hy.congr_deriv ?_⟩
  · rw [hsin]
    linear_combination -(r * (Real.pi - θ) * u.x) * hside
  · rw [hcos]
    linear_combination -(r * (Real.pi - θ) * u.y) * hside

end Sides

theorem Point.scaleBy_unit {p : Point ℝ} (hp : p.toComplex ≠ 0) :
    Point.scaleBy ‖p.toComplex‖ p.unit = p := by
  have hnorm : ‖p.toComplex‖ ≠ 0 := norm_ne_zero_iff.mpr hp
  rw [scaleBy_real, unit]
  ext
  · exact mul_div_cancel₀ _ hnorm
  · exact mul_div_cancel₀ _ hnorm

theorem exists_sides {p q : Point ℝ} (hp : p.toComplex ≠ 0) (hq : q.toComplex ≠ 0)
    (hpos : 0 < InnerProductGeometry.angle p.toComplex q.toComplex)
    (hlt : InnerProductGeometry.angle p.toComplex q.toComplex < Real.pi) :
    ∃ side, Sides p.unit q.unit (InnerProductGeometry.angle p.toComplex q.toComplex) side := by
  have hunit : ∀ {z : Point ℝ}, z.toComplex ≠ 0 → z.unit.x ^ 2 + z.unit.y ^ 2 = 1 := by
    intro z hz
    have hsq : ‖z.toComplex‖ ^ 2 = z.x ^ 2 + z.y ^ 2 := by
      rw [Point.norm_toComplex, Real.sq_sqrt (by positivity)]
    have hnorm : ‖z.toComplex‖ ≠ 0 := norm_ne_zero_iff.mpr hz
    rw [Point.unit, div_pow, div_pow, ← add_div, ← hsq, div_self (pow_ne_zero 2 hnorm)]
  have hdot : p.unit.x * q.unit.x + p.unit.y * q.unit.y =
      Real.cos (InnerProductGeometry.angle p.toComplex q.toComplex) := by
    rw [InnerProductGeometry.cos_angle, Point.inner_toComplex, Point.unit, Point.unit]
    simp only [div_mul_div_comm, add_div]
  have hsq := Point.products_sq_add_sq (hunit hp) (hunit hq)
  rw [hdot, Real.cos_sq', sub_add_eq_add_sub, sub_eq_iff_eq_add, add_right_inj,
    sq_eq_sq_iff_eq_or_eq_neg] at hsq
  rcases hsq with hcross | hcross
  · exact ⟨1, hpos, hlt, hunit hp, hdot, by rw [hcross, one_mul], .inl rfl⟩
  · exact ⟨-1, hpos, hlt, hunit hp, hdot, by rw [hcross, neg_one_mul], .inr rfl⟩

namespace Fillet

/-- What it means that an arc rounds the corner `p1` between `p0` and `p2` with a radius: it is a
part of a circle that touches both sides, each on the ray from the corner, and it goes from the
one touching point to the other, on the way on which the first side comes. -/
structure Rounds (f : Fillet ℝ) (p0 p1 p2 : Point ℝ) (r : ℝ) : Prop where
  start_ray : ∃ k > 0, f.start = p1 + Point.scaleBy k (p0 - p1)
  finish_ray : ∃ k > 0, f.finish = p1 + Point.scaleBy k (p2 - p1)
  circle : f.arc.ellipse = Ellipse.circle f.arc.ellipse.center r
  touches_first : (⟨f.arc.ellipse.center.toComplex, r⟩ : EuclideanGeometry.Sphere ℂ).IsTangentAt
    f.start.toComplex line[ℝ, p1.toComplex, p0.toComplex]
  touches_second : (⟨f.arc.ellipse.center.toComplex, r⟩ : EuclideanGeometry.Sphere ℂ).IsTangentAt
    f.finish.toComplex line[ℝ, p1.toComplex, p2.toComplex]
  begins : f.arc.ellipse.pointAt f.arc.startAngle = .ok f.start
  ends : f.arc.ellipse.pointAt (f.arc.startAngle + f.arc.sweep) = .ok f.finish
  sweep : |f.arc.sweep| =
    Real.pi - EuclideanGeometry.angle p0.toComplex p1.toComplex p2.toComplex
  leaves : ∃ k > 0,
    HasDerivAt (fun t => (f.arc.ellipse.point (f.arc.startAngle + t * f.arc.sweep)).x)
      (k * (p1.x - p0.x)) 0 ∧
    HasDerivAt (fun t => (f.arc.ellipse.point (f.arc.startAngle + t * f.arc.sweep)).y)
      (k * (p1.y - p0.y)) 0

noncomputable def between (p1 u v : Point ℝ) (θ side r : ℝ) : Fillet ℝ :=
  ⟨touchPoint p1 u θ r,
    ⟨Ellipse.circle (filletCenter p1 u v θ r) r,
      (touchPoint p1 u θ r - filletCenter p1 u v θ r).heading,
      (touchPoint p1 v θ r - filletCenter p1 u v θ r).heading,
      blt (-(side * (Real.pi - θ))) (whole 0)⟩,
    touchPoint p1 v θ r⟩

section Between

variable {p0 p1 p2 : Point ℝ} {θ side r : ℝ}

/-- The way of the arc is read off the turn that the path makes at the corner. -/
theorem anticlockwise_eq (h0 : (p0 - p1).toComplex ≠ 0) (h2 : (p2 - p1).toComplex ≠ 0)
    (h : Sides (p0 - p1).unit (p2 - p1).unit θ side) :
    blt ((p1 - p0).x * (p2 - p1).y - (p1 - p0).y * (p2 - p1).x) (whole 0) =
      blt (-(side * (Real.pi - θ))) (whole 0) := by
  have hpi := h.lt_pi
  have hsin := Real.sin_pos_of_pos_of_lt_pi h.pos hpi
  have hfirst : p0 - p1 = Point.scaleBy ‖(p0 - p1).toComplex‖ (p0 - p1).unit :=
    (Point.scaleBy_unit h0).symm
  have hsecond : p2 - p1 = Point.scaleBy ‖(p2 - p1).toComplex‖ (p2 - p1).unit :=
    (Point.scaleBy_unit h2).symm
  rw [Point.scaleBy_real, Point.ext_iff] at hfirst hsecond
  have hx : (p1 - p0).x = -(p0 - p1).x := (neg_sub p0.x p1.x).symm
  have hy : (p1 - p0).y = -(p0 - p1).y := (neg_sub p0.y p1.y).symm
  have hturn : (p1 - p0).x * (p2 - p1).y - (p1 - p0).y * (p2 - p1).x =
      -(‖(p0 - p1).toComplex‖ * ‖(p2 - p1).toComplex‖ * Real.sin θ * side) := by
    rw [hx, hy, hfirst.1, hfirst.2, hsecond.1, hsecond.2]
    linear_combination -(‖(p0 - p1).toComplex‖ * ‖(p2 - p1).toComplex‖) * h.cross
  have hscale : 0 < ‖(p0 - p1).toComplex‖ * ‖(p2 - p1).toComplex‖ * Real.sin θ :=
    mul_pos (mul_pos (norm_pos_iff.mpr h0) (norm_pos_iff.mpr h2)) hsin
  rw [hturn, Bool.eq_iff_iff, real_blt, real_blt, real_whole, Nat.cast_zero, neg_lt_zero,
    neg_lt_zero, mul_pos_iff_of_pos_left hscale, mul_pos_iff_of_pos_right (by linarith)]

theorem inCorner_real (h0 : (p0 - p1).toComplex ≠ 0) (h2 : (p2 - p1).toComplex ≠ 0)
    (h : Sides (p0 - p1).unit (p2 - p1).unit θ side) :
    inCorner p0 p1 p2 θ r = .ok (between p1 (p0 - p1).unit (p2 - p1).unit θ side r) := by
  obtain ⟨hs, hc⟩ := h.half_pos
  have htan : tan (θ / whole 2) ≠ (0 : ℝ) := h.tan_half_pos.ne'
  have hsin : sin (θ / whole 2) ≠ (0 : ℝ) := by
    rw [half_eq]
    exact hs.ne'
  have hsum : ((p0 - p1).unit + (p2 - p1).unit).toComplex ≠ 0 := by
    rw [← norm_pos_iff, h.norm_add]
    positivity
  rw [inCorner, Point.direction_real h0, Point.direction_real h2, ok_bind, ok_bind,
    real_divide _ htan, real_divide _ hsin, ok_bind, ok_bind]
  change ((p0 - p1).unit + (p2 - p1).unit).direction >>= _ = _
  rw [Point.direction_real hsum, ok_bind]
  simp only [anticlockwise_eq h0 h2 h]
  rfl

theorem touchPoint_on_ray {q : Point ℝ} (hq : q.toComplex ≠ 0) (hd : 0 < r / tan (θ / whole 2)) :
    ∃ k > 0, touchPoint p1 q.unit θ r = p1 + Point.scaleBy k q := by
  have hnorm : 0 < ‖q.toComplex‖ := norm_pos_iff.mpr hq
  refine ⟨r / tan (θ / whole 2) / ‖q.toComplex‖, by positivity, ?_⟩
  rw [touchPoint, Point.scaleBy_real, Point.scaleBy_real, Point.unit]
  congr 2
  · ring
  · ring

theorem rounds_between (h0 : (p0 - p1).toComplex ≠ 0) (h2 : (p2 - p1).toComplex ≠ 0)
    (h : Sides (p0 - p1).unit (p2 - p1).unit θ side)
    (hθ : θ = EuclideanGeometry.angle p0.toComplex p1.toComplex p2.toComplex) (hr : 0 < r) :
    (between p1 (p0 - p1).unit (p2 - p1).unit θ side r).Rounds p0 p1 p2 r := by
  have hd := div_pos hr h.tan_half_pos
  have hfirst : p0 = p1 + Point.scaleBy ‖(p0 - p1).toComplex‖ (p0 - p1).unit := by
    rw [Point.scaleBy_unit h0]
    ext <;> simp
  have hsecond : p2 = p1 + Point.scaleBy ‖(p2 - p1).toComplex‖ (p2 - p1).unit := by
    rw [Point.scaleBy_unit h2]
    ext <;> simp
  have hsweep : (between p1 (p0 - p1).unit (p2 - p1).unit θ side r).arc.sweep =
      -(side * (Real.pi - θ)) := h.sweep_eq p1 hr
  exact
    { start_ray := touchPoint_on_ray h0 hd
      finish_ray := touchPoint_on_ray h2 hd
      circle := rfl
      touches_first := h.isTangentAt (norm_ne_zero_iff.mpr h0) hfirst hr
      touches_second := by
        have htouch := h.symm.isTangentAt (norm_ne_zero_iff.mpr h2) hsecond hr
        rwa [filletCenter_comm] at htouch
      begins := by
        rw [Ellipse.pointAt_point]
        exact congrArg _ (Ellipse.point_heading hr (h.norm_touchPoint_sub p1 hr))
      ends := by
        obtain ⟨hcos, hsin⟩ := h.heading_sub_heading p1 hr
        rw [hsweep, Ellipse.pointAt_point]
        refine congrArg _ (Eq.trans (Ellipse.point_congr _ ?_ ?_)
          (Ellipse.point_heading hr (h.norm_touchPoint_sub' p1 hr)))
        · rw [Real.cos_add, ← hcos, ← hsin, ← Real.cos_add]
          exact congrArg _ (add_sub_cancel _ _)
        · rw [Real.sin_add, ← hcos, ← hsin, ← Real.sin_add]
          exact congrArg _ (add_sub_cancel _ _)
      sweep := by rw [hsweep, h.abs_sweep, hθ]
      leaves := by
        have hnorm : 0 < ‖(p0 - p1).toComplex‖ := norm_pos_iff.mpr h0
        have hpi : 0 < Real.pi - θ := by linarith [h.lt_pi]
        obtain ⟨hx, hy⟩ := h.hasDerivAt_point p1 hr
        refine ⟨r * (Real.pi - θ) / ‖(p0 - p1).toComplex‖, by positivity, ?_⟩
        rw [hsweep]
        refine ⟨hx.congr_deriv ?_, hy.congr_deriv ?_⟩
        · rw [Point.unit, Point.sub_x]
          ring
        · rw [Point.unit, Point.sub_y]
          ring }

/-- In a corner whose angle is outside the tolerance of none and of half a turn the arc is found,
and it rounds the corner. -/
theorem exists_rounds (hr : 0 < r)
    (h : ¬ Collinear ℝ {p0.toComplex, p1.toComplex, p2.toComplex})
    (hlow : collinearTolerance ≤
      EuclideanGeometry.angle p0.toComplex p1.toComplex p2.toComplex)
    (hhigh : collinearTolerance ≤
      Real.pi - EuclideanGeometry.angle p0.toComplex p1.toComplex p2.toComplex) :
    ∃ f, of? p0 p1 p2 r = .ok (some f) ∧ f.Rounds p0 p1 p2 r := by
  have hangle : EuclideanGeometry.angle p0.toComplex p1.toComplex p2.toComplex =
      InnerProductGeometry.angle (p0 - p1).toComplex (p2 - p1).toComplex := rfl
  rw [EuclideanGeometry.collinear_iff_eq_or_eq_or_angle_eq_zero_or_angle_eq_pi] at h
  push Not at h
  obtain ⟨hp0, hp2, hne, hlt⟩ := h
  have h0 : (p0 - p1).toComplex ≠ 0 := by simpa [sub_eq_zero] using hp0
  have h2 : (p2 - p1).toComplex ≠ 0 := by simpa [sub_eq_zero] using hp2
  rw [hangle] at hne hlt hlow hhigh
  obtain ⟨side, hsides⟩ := exists_sides h0 h2
    (lt_of_le_of_ne (InnerProductGeometry.angle_nonneg _ _) hne.symm)
    (lt_of_le_of_ne (InnerProductGeometry.angle_le_pi _ _) hlt)
  obtain ⟨angle, hturn, habs⟩ := Point.magnitude_angleTo h0 h2
  refine ⟨_, ?_, rounds_between h0 h2 hsides hangle hr⟩
  have hdegenerate : ¬ (isZero r || p0.beq p1 || p1.beq p2) = true := by
    have hp1 : p0 ≠ p1 := fun heq => hp0 (congrArg Point.toComplex heq)
    have hp2' : p1 ≠ p2 := fun heq => hp2 (congrArg Point.toComplex heq.symm)
    simp only [Bool.or_eq_true, real_isZero, Point.beq_real, hr.ne', hp1, hp2', or_self,
      not_false_eq_true]
  have hcorner : ¬ (blt |angle| collinearTolerance || blt (pi - |angle|) collinearTolerance) =
      true := by
    rw [habs, Bool.or_eq_true, real_blt, real_blt, not_or, not_lt, not_lt]
    exact ⟨hlow, hhigh⟩
  rw [of?, if_neg hdegenerate, hturn, ok_bind]
  simp only [real_magnitude]
  rw [if_neg hcorner, habs, inCorner_real h0 h2 hsides]
  rfl

end Between

end Fillet

end Linework
