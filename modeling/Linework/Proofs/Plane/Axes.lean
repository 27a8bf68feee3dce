import Mathlib.LinearAlgebra.UnitaryGroup
import Linework.Plane.Axes
import Linework.Proofs.Plane.RealPoint

/-!
# The axes of a transformed circle

A matrix takes the unit circle to an ellipse. It has axes in the sense of its singular values: it
is a product of an orthogonal matrix, a stretch along the coordinate axes and another orthogonal
matrix. The last one only turns the circle round or over, the stretch makes it an ellipse, and the
first one turns the ellipse, so the image has the singular values for radii.
-/

set_option autoImplicit false

namespace Linework

open Scalar

namespace Matrix2

def toMatrix (m : Matrix2 ℝ) : Matrix (Fin 2) (Fin 2) ℝ := !![m.xx, m.xy; m.yx, m.yy]

noncomputable def circlePoint (m : Matrix2 ℝ) (θ : ℝ) : Point ℝ :=
  ⟨m.xx * Real.cos θ + m.xy * Real.sin θ, m.yx * Real.cos θ + m.yy * Real.sin θ⟩

def det (m : Matrix2 ℝ) : ℝ := m.xx * m.yy - m.xy * m.yx

end Matrix2

/-- What a decomposition into singular values is to give: the values in descending order, and the
heading of the first column of the first factor. -/
structure IsAxes (m : Matrix2 ℝ) (a : Axes ℝ) : Prop where
  minor_nonneg : 0 ≤ a.minor
  minor_le : a.minor ≤ a.major
  factors : ∃ u ∈ Matrix.orthogonalGroup (Fin 2) ℝ, ∃ v ∈ Matrix.orthogonalGroup (Fin 2) ℝ,
    m.toMatrix = u * Matrix.diagonal ![a.major, a.minor] * v ∧ a.angle = atan2 (u 1 0) (u 0 0)

section Orthogonal

variable {u : Matrix (Fin 2) (Fin 2) ℝ}

theorem orthogonal_entries (hu : u ∈ Matrix.orthogonalGroup (Fin 2) ℝ) :
    (u.det = 1 ∨ u.det = -1) ∧ u 0 0 ^ 2 + u 1 0 ^ 2 = 1 ∧ u 0 1 = -(u.det * u 1 0) ∧
      u 1 1 = u.det * u 0 0 := by
  have hrows := (Matrix.mem_orthogonalGroup_iff (Fin 2) ℝ).mp hu
  have hcolumns := (Matrix.mem_orthogonalGroup_iff' (Fin 2) ℝ).mp hu
  have hdet := Matrix.det_fin_two u
  have hfirst := congrFun (congrFun hrows 0) 0
  have hmixed := congrFun (congrFun hrows 0) 1
  have hsecond := congrFun (congrFun hrows 1) 1
  have hcolumn := congrFun (congrFun hcolumns 0) 0
  simp only [Matrix.mul_apply, Matrix.transpose_apply, Fin.sum_univ_two, Matrix.one_apply,
    Fin.isValue, if_true, zero_ne_one, if_false] at hfirst hmixed hsecond hcolumn
  refine ⟨sq_eq_one_iff.mp ?_, ?_, ?_, ?_⟩
  · rw [hdet]
    linear_combination hfirst * (u 1 0 * u 1 0 + u 1 1 * u 1 1) + hsecond -
      hmixed * (u 0 0 * u 1 0 + u 0 1 * u 1 1)
  · linear_combination hcolumn
  · rw [hdet]
    linear_combination -u 0 1 * hsecond + u 1 1 * hmixed
  · rw [hdet]
    linear_combination -u 1 1 * hfirst + u 0 1 * hmixed

theorem cos_sin_atan2 {x y : ℝ} (h : x ^ 2 + y ^ 2 = 1) :
    Real.cos (atan2 y x) = x ∧ Real.sin (atan2 y x) = y := by
  have hnorm : ‖(⟨x, y⟩ : ℂ)‖ = 1 := by
    rw [Complex.norm_eq_sqrt_sq_add_sq, h, Real.sqrt_one]
  have hne : (⟨x, y⟩ : ℂ) ≠ 0 := by
    rw [← norm_ne_zero_iff, hnorm]
    exact one_ne_zero
  constructor
  · change Real.cos (Complex.arg ⟨x, y⟩) = x
    rw [Complex.cos_arg hne, hnorm, div_one]
  · change Real.sin (Complex.arg ⟨x, y⟩) = y
    rw [Complex.sin_arg, hnorm, div_one]

end Orthogonal

section Images

variable {m : Matrix2 ℝ} {a : Axes ℝ} {σ : ℝ}

theorem cos_sign_mul (hσ : σ = 1 ∨ σ = -1) (x : ℝ) : Real.cos (σ * x) = Real.cos x := by
  rcases hσ with rfl | rfl <;> simp

theorem sin_sign_mul (hσ : σ = 1 ∨ σ = -1) (x : ℝ) : Real.sin (σ * x) = σ * Real.sin x := by
  rcases hσ with rfl | rfl <;> simp

theorem abs_sign_mul (hσ : σ = 1 ∨ σ = -1) (x : ℝ) : |σ * x| = |x| := by
  rcases hσ with rfl | rfl <;> simp

theorem sign_mul_sign_mul (hσ : σ = 1 ∨ σ = -1) (x : ℝ) : σ * (σ * x) = x := by
  rcases hσ with rfl | rfl <;> simp

theorem ne_zero_of_sign (hσ : σ = 1 ∨ σ = -1) : σ ≠ 0 := by
  rcases hσ with rfl | rfl <;> norm_num

theorem Matrix2.det_toMatrix (m : Matrix2 ℝ) : m.toMatrix.det = m.det := by
  rw [toMatrix, Matrix.det_fin_two_of, det]

theorem Matrix2.eq_factors_iff {u v : Matrix (Fin 2) (Fin 2) ℝ} {s t : ℝ} :
    m.toMatrix = u * Matrix.diagonal ![s, t] * v ↔
      m.xx = u 0 0 * s * v 0 0 + u 0 1 * t * v 1 0 ∧ m.xy = u 0 0 * s * v 0 1 + u 0 1 * t * v 1 1 ∧
        m.yx = u 1 0 * s * v 0 0 + u 1 1 * t * v 1 0 ∧
        m.yy = u 1 0 * s * v 0 1 + u 1 1 * t * v 1 1 := by
  have entry : ∀ i j, (u * Matrix.diagonal ![s, t] * v) i j =
      u i 0 * s * v 0 j + u i 1 * t * v 1 j := by
    intro i j
    rw [Matrix.mul_apply, Fin.sum_univ_two, Matrix.mul_diagonal, Matrix.mul_diagonal]
    rfl
  constructor
  · intro h
    rw [← entry, ← entry, ← entry, ← entry, ← h]
    exact ⟨rfl, rfl, rfl, rfl⟩
  · rintro ⟨hxx, hxy, hyx, hyy⟩
    ext i j
    rw [entry]
    fin_cases i <;> fin_cases j
    · exact hxx
    · exact hxy
    · exact hyx
    · exact hyy

/-- The image of the circle is run through at the same pace as the circle, from some point on, and
the other way round if the matrix reverses orientation. -/
theorem IsAxes.exists_turn (h : IsAxes m a) :
    ∃ σ c : ℝ, (σ = 1 ∨ σ = -1) ∧ m.det = σ * (a.major * a.minor) ∧
      ∀ θ, m.circlePoint θ = Point.onUnitCircle a.angle *
        ⟨a.major * Real.cos (σ * θ + c), a.minor * Real.sin (σ * θ + c)⟩ := by
  obtain ⟨u, hu, v, hv, hm, hangle⟩ := h.factors
  obtain ⟨husign, huone, hu01, hu11⟩ := orthogonal_entries hu
  obtain ⟨hvsign, hvone, hv01, hv11⟩ := orthogonal_entries hv
  obtain ⟨hxx, hxy, hyx, hyy⟩ := Matrix2.eq_factors_iff.mp hm
  obtain ⟨hcos, hsin⟩ := cos_sin_atan2 huone
  obtain ⟨hcos', hsin'⟩ := cos_sin_atan2 hvone
  rw [← hangle] at hcos hsin
  -- the last factor turns the circle, or turns it over; the reflection in the first one passes to
  -- the angles, too
  have hpoint : ∀ θ, Real.cos (u.det * v.det * θ + u.det * atan2 (v 1 0) (v 0 0)) =
        v 0 0 * Real.cos θ + v 0 1 * Real.sin θ ∧
      Real.sin (u.det * v.det * θ + u.det * atan2 (v 1 0) (v 0 0)) =
        u.det * (v 1 0 * Real.cos θ + v 1 1 * Real.sin θ) := by
    intro θ
    have hangle : u.det * v.det * θ + u.det * atan2 (v 1 0) (v 0 0) =
        u.det * (v.det * θ + atan2 (v 1 0) (v 0 0)) := by ring
    rw [hangle, cos_sign_mul husign, sin_sign_mul husign, Real.cos_add, Real.sin_add,
      cos_sign_mul hvsign, sin_sign_mul hvsign, hcos', hsin', hv01, hv11]
    constructor <;> ring
  refine ⟨u.det * v.det, u.det * atan2 (v 1 0) (v 0 0), ?_, ?_, fun θ => ?_⟩
  · rcases husign with hu | hu <;> rcases hvsign with hv | hv <;> rw [hu, hv] <;> norm_num
  · rw [← m.det_toMatrix, hm, Matrix.det_mul, Matrix.det_mul, Matrix.det_diagonal,
      Fin.prod_univ_two]
    change u.det * (a.major * a.minor) * v.det = _
    ring
  · rw [(hpoint θ).1, (hpoint θ).2, Point.onUnitCircle_real, hcos, hsin, Matrix2.circlePoint, hxx,
      hxy, hyx, hyy, hu01, hu11]
    ext
    · simp only [Point.mul_x]
      ring
    · simp only [Point.mul_y]
      ring

end Images

section Exact

variable {m : Matrix2 ℝ}

noncomputable def turning (φ σ : ℝ) : Matrix (Fin 2) (Fin 2) ℝ :=
  !![Real.cos φ, -(σ * Real.sin φ); Real.sin φ, σ * Real.cos φ]

theorem turning_mem_orthogonalGroup (φ : ℝ) {σ : ℝ} (hσ : σ = 1 ∨ σ = -1) :
    turning φ σ ∈ Matrix.orthogonalGroup (Fin 2) ℝ := by
  have hone := Real.sin_sq_add_cos_sq φ
  have hsq : σ ^ 2 = 1 := sq_eq_one_iff.mpr hσ
  rw [Matrix.mem_orthogonalGroup_iff, turning]
  ext i j
  fin_cases i <;> fin_cases j <;>
    simp [Matrix.mul_apply, Fin.sum_univ_two]
  · linear_combination hone + Real.sin φ ^ 2 * hsq
  · linear_combination -(Real.sin φ * Real.cos φ) * hsq
  · linear_combination -(Real.sin φ * Real.cos φ) * hsq
  · linear_combination hone + Real.cos φ ^ 2 * hsq

theorem atan2_turn {φ : ℝ} (hlow : -Real.pi < φ) (hhigh : φ ≤ Real.pi) :
    atan2 (Real.sin φ) (Real.cos φ) = φ := by
  have hpoint : (⟨Real.cos φ, Real.sin φ⟩ : ℂ) = Complex.cos φ + Complex.sin φ * Complex.I := by
    rw [← Complex.ofReal_cos, ← Complex.ofReal_sin, ← Complex.mk_eq_add_mul_I]
  change Complex.arg ⟨Real.cos φ, Real.sin φ⟩ = φ
  rw [hpoint, Complex.arg_cos_add_sin_mul_I ⟨hlow, hhigh⟩]

noncomputable def Matrix2.turned (m : Matrix2 ℝ) : ℂ :=
  ⟨(m.xx + m.yy) / whole 2, (m.yx - m.xy) / whole 2⟩

noncomputable def Matrix2.reflected (m : Matrix2 ℝ) : ℂ :=
  ⟨(m.xx - m.yy) / whole 2, (m.yx + m.xy) / whole 2⟩

noncomputable abbrev exactAxes : HasAxes ℝ where
  axes m := ⟨‖m.turned‖ + ‖m.reflected‖, |‖m.turned‖ - ‖m.reflected‖|,
    (m.turned.arg + m.reflected.arg) / whole 2⟩

/-- The larger part and the smaller one add up to the stretch one way and differ by that the other
way; half the sum and half the difference of their turns are those of the two factors. -/
theorem Matrix2.eq_exact_factors {σ : ℝ}
    (hσ : σ * |‖m.turned‖ - ‖m.reflected‖| = ‖m.turned‖ - ‖m.reflected‖) :
    m.toMatrix = turning ((m.turned.arg + m.reflected.arg) / whole 2) σ *
      Matrix.diagonal ![‖m.turned‖ + ‖m.reflected‖, |‖m.turned‖ - ‖m.reflected‖|] *
        turning ((m.turned.arg - m.reflected.arg) / whole 2) 1 := by
  have htwo : (whole 2 : ℝ) = 2 := by simp
  have hsum : (m.turned.arg + m.reflected.arg) / whole 2 +
      (m.turned.arg - m.reflected.arg) / whole 2 = m.turned.arg := by
    rw [htwo]
    ring
  have hdiff : (m.turned.arg + m.reflected.arg) / whole 2 -
      (m.turned.arg - m.reflected.arg) / whole 2 = m.reflected.arg := by
    rw [htwo]
    ring
  have hx : _ = (m.xx + m.yy) / whole 2 := Complex.norm_mul_cos_arg m.turned
  have hy : _ = (m.yx - m.xy) / whole 2 := Complex.norm_mul_sin_arg m.turned
  have hx' : _ = (m.xx - m.yy) / whole 2 := Complex.norm_mul_cos_arg m.reflected
  have hy' : _ = (m.yx + m.xy) / whole 2 := Complex.norm_mul_sin_arg m.reflected
  rw [htwo] at hx hy hx' hy'
  rw [← hsum, Real.cos_add] at hx
  rw [← hsum, Real.sin_add] at hy
  rw [← hdiff, Real.cos_sub] at hx'
  rw [← hdiff, Real.sin_sub] at hy'
  generalize (m.turned.arg + m.reflected.arg) / whole 2 = φ at *
  generalize (m.turned.arg - m.reflected.arg) / whole 2 = ψ at *
  rw [eq_factors_iff]
  simp only [turning, Matrix.of_apply, Matrix.cons_val', Matrix.cons_val_zero, Matrix.cons_val_one,
    Matrix.cons_val_fin_one, one_mul]
  refine ⟨?_, ?_, ?_, ?_⟩
  · linear_combination -hx - hx' + Real.sin φ * Real.sin ψ * hσ
  · linear_combination hy - hy' + Real.sin φ * Real.cos ψ * hσ
  · linear_combination -hy - hy' - Real.cos φ * Real.sin ψ * hσ
  · linear_combination -hx + hx' - Real.cos φ * Real.cos ψ * hσ

theorem isAxes_exactAxes (m : Matrix2 ℝ) : IsAxes m (exactAxes.axes m) := by
  obtain ⟨σ, hσ, habs⟩ : ∃ σ : ℝ, (σ = 1 ∨ σ = -1) ∧
      σ * |‖m.turned‖ - ‖m.reflected‖| = ‖m.turned‖ - ‖m.reflected‖ := by
    rcases abs_choice (‖m.turned‖ - ‖m.reflected‖) with h | h
    · exact ⟨1, .inl rfl, by rw [h, one_mul]⟩
    · exact ⟨-1, .inr rfl, by rw [h]; ring⟩
  have hle : |‖m.turned‖ - ‖m.reflected‖| ≤ ‖m.turned‖ + ‖m.reflected‖ := by
    rw [abs_le]
    constructor <;> linarith [norm_nonneg m.turned, norm_nonneg m.reflected]
  have hangle : (m.turned.arg + m.reflected.arg) / whole 2 =
      atan2 (Real.sin ((m.turned.arg + m.reflected.arg) / whole 2))
        (Real.cos ((m.turned.arg + m.reflected.arg) / whole 2)) := by
    have htwo : (whole 2 : ℝ) = 2 := by simp
    rw [htwo, atan2_turn]
    · linarith [m.turned.neg_pi_lt_arg, m.reflected.neg_pi_lt_arg]
    · linarith [m.turned.arg_le_pi, m.reflected.arg_le_pi]
  exact ⟨abs_nonneg _, hle, _, turning_mem_orthogonalGroup _ hσ, _,
    turning_mem_orthogonalGroup _ (.inl rfl), Matrix2.eq_exact_factors habs, hangle⟩

end Exact

end Linework
