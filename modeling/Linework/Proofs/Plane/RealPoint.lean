import Linework.Proofs.Number.Real
import Linework.Plane.Arc

/-!
# Points with real coordinates

With exact coordinates the operations on points are those of the complex numbers, and no length
and no quotient by another point than the origin fails.
-/

set_option autoImplicit false

namespace Linework

open Scalar

attribute [ext] Point

namespace Scalar

variable {x y : ℝ}

theorem real_divide (x : ℝ) (h : y ≠ 0) : divide x y = .ok (x / y) := by
  rw [divide, if_neg (by simpa using h)]

@[simp] theorem real_onCircle (f : ℝ → ℝ) (x : ℝ) : onCircle f x = .ok (f x) := rfl

end Scalar

namespace Point

variable {p q u v : Point ℝ}

@[simp] theorem add_x (p q : Point ℝ) : (p + q).x = p.x + q.x := rfl

@[simp] theorem add_y (p q : Point ℝ) : (p + q).y = p.y + q.y := rfl

@[simp] theorem sub_x (p q : Point ℝ) : (p - q).x = p.x - q.x := rfl

@[simp] theorem sub_y (p q : Point ℝ) : (p - q).y = p.y - q.y := rfl

@[simp] theorem mul_x (p q : Point ℝ) : (p * q).x = p.x * q.x - p.y * q.y := rfl

@[simp] theorem mul_y (p q : Point ℝ) : (p * q).y = p.x * q.y + p.y * q.x := rfl

theorem mul_neg_mk (p q : Point ℝ) : p * ⟨-q.x, -q.y⟩ = ⟨-(p * q).x, -(p * q).y⟩ := by
  ext
  · simp only [mul_x]
    ring
  · simp only [mul_y]
    ring

@[simp] theorem zero_real : (zero : Point ℝ) = ⟨0, 0⟩ := by
  simp [zero]

@[simp] theorem ofReal_real (x : ℝ) : ofReal x = ⟨x, 0⟩ := by
  simp [ofReal]

@[simp] theorem upward_real (x : ℝ) : upward x = ⟨0, x⟩ := by
  ext <;> simp [upward, unitY]

theorem ofReal_add_upward (p : Point ℝ) : ofReal p.x + upward p.y = p := by
  ext <;> simp

theorem beq_real : p.beq q = true ↔ p = q := by
  simp [beq, Point.ext_iff]

/-- A quotient that has been divided through by one coordinate `a` of the divisor. -/
theorem divided_through {a b : ℝ} (ha : a ≠ 0) (s t : ℝ) :
    (s + t * (b / a)) / (a + b * (b / a)) = (s * a + t * b) / (a ^ 2 + b ^ 2) := by
  have hsum : a ^ 2 + b ^ 2 ≠ 0 := by positivity
  have hden : a + b * (b / a) = (a ^ 2 + b ^ 2) / a := by field_simp
  rw [hden]
  field_simp

/-- The quotient of complex numbers, in both ways of avoiding an overflow. -/
theorem div_real (p : Point ℝ) (h : q ≠ ⟨0, 0⟩) :
    p.div q = .ok ⟨(p.x * q.x + p.y * q.y) / (q.x ^ 2 + q.y ^ 2),
      (p.y * q.x - p.x * q.y) / (q.x ^ 2 + q.y ^ 2)⟩ := by
  have hq : ¬ (q.x = 0 ∧ q.y = 0) := fun hn => h (Point.ext hn.1 hn.2)
  rw [div]
  simp only [real_magnitude]
  by_cases hxy : |q.y| ≤ |q.x|
  · have hx : q.x ≠ 0 := by
      intro hx
      rw [hx, abs_zero, abs_nonpos_iff] at hxy
      exact hq ⟨hx, hxy⟩
    rw [if_pos (real_ble.mpr hxy), if_neg (by simpa using hx), divided_through hx]
    have hsub : p.y - p.x * (q.y / q.x) = p.y + -p.x * (q.y / q.x) := by ring
    rw [hsub, divided_through hx, neg_mul, ← sub_eq_add_neg]
  · have hyx : |q.x| ≤ |q.y| := (not_le.mp hxy).le
    have hy : q.y ≠ 0 := by
      intro hy
      rw [hy, abs_zero] at hxy
      exact hxy (abs_nonneg _)
    rw [if_neg (by simpa using hxy), if_pos (real_ble.mpr hyx)]
    have hsum : q.x * (q.x / q.y) + q.y = q.y + q.x * (q.x / q.y) := add_comm _ _
    have hadd : p.x * (q.x / q.y) + p.y = p.y + p.x * (q.x / q.y) := add_comm _ _
    have hsub : p.y * (q.x / q.y) - p.x = -p.x + p.y * (q.x / q.y) := by ring
    rw [hsum, hadd, hsub, divided_through hy, divided_through hy, add_comm (q.y ^ 2),
      add_comm (p.y * q.y), neg_mul, neg_add_eq_sub]

theorem divBy_real (p : Point ℝ) {k : ℝ} (h : k ≠ 0) : p.divBy k = .ok ⟨p.x / k, p.y / k⟩ := by
  rw [divBy, ofReal_real, div_real p (by simpa using h)]
  congr 2 <;> field_simp <;> ring

theorem length_real (p : Point ℝ) : p.length = .ok √(p.x ^ 2 + p.y ^ 2) := rfl

theorem onUnitCircle_real (angle : ℝ) : onUnitCircle angle = ⟨Real.cos angle, Real.sin angle⟩ := by
  ext <;> simp [onUnitCircle]

theorem rotate_real (angle : ℝ) (p : Point ℝ) : p.rotate angle = onUnitCircle angle * p := by
  ext <;> simp [rotate, rotateAbout]

theorem products_sq_add_sq (hu : u.x ^ 2 + u.y ^ 2 = 1) (hv : v.x ^ 2 + v.y ^ 2 = 1) :
    (u.x * v.x + u.y * v.y) ^ 2 + (u.x * v.y - u.y * v.x) ^ 2 = 1 := by
  linear_combination hu * (v.x ^ 2 + v.y ^ 2) + hv

end Point

namespace Ellipse

theorem pointAt_real (e : Ellipse ℝ) (angle : ℝ) :
    e.pointAt angle = .ok (Point.onUnitCircle e.rotation *
      ⟨e.radii.x * Real.cos angle, e.radii.y * Real.sin angle⟩ + e.center) := by
  have hp : Point.ofReal (e.radii.x * cos angle) +
      Point.upward e.radii.y * Point.ofReal (sin angle) =
      ⟨e.radii.x * Real.cos angle, e.radii.y * Real.sin angle⟩ := by
    ext <;> simp
  rw [← hp, ← Point.rotate_real]
  rfl

/-- The point of an ellipse at an angle. -/
noncomputable def point (e : Ellipse ℝ) (θ : ℝ) : Point ℝ :=
  Point.onUnitCircle e.rotation * ⟨e.radii.x * Real.cos θ, e.radii.y * Real.sin θ⟩ + e.center

theorem pointAt_point (e : Ellipse ℝ) (θ : ℝ) : e.pointAt θ = .ok (e.point θ) := e.pointAt_real θ

theorem point_congr (e : Ellipse ℝ) {a b : ℝ} (hcos : Real.cos a = Real.cos b)
    (hsin : Real.sin a = Real.sin b) : e.point a = e.point b := by
  rw [point, point, hcos, hsin]

end Ellipse

end Linework
