import Linework.Proofs.Act
import Linework.Proofs.Plane.RealPoint
import Mathlib.Tactic.NormNum.RealSqrt

/-!
# The angle between two vectors

The angle is found from a cosine and a sign. Computed exactly, it is the argument of the quotient of
the vectors as complex numbers. It lies within half a turn, and it is the only such angle by which
the one vector can be rotated into the direction of the other. As arguments of products add up, so
do angles, apart from full turns.
-/

set_option autoImplicit false

namespace Linework

open Scalar

section Cosine

variable {α : Type} [Scalar α]

/-- The cosine of the angle between two vectors, as it is rounded before it is used. -/
def Point.cosineTo (u v : Point α) : Except Fault α := do
  let sizeU ← u.length
  let sizeV ← v.length
  divide (u.x * v.x + u.y * v.y) (sizeU * sizeV)

theorem Point.cosineTo_eq {u v : Point α} {sizeU sizeV : α} (hu : u.length = .ok sizeU)
    (hv : v.length = .ok sizeV) (h : ¬ isZero (sizeU * sizeV) = true) :
    u.cosineTo v = .ok ((u.x * v.x + u.y * v.y) / (sizeU * sizeV)) := by
  rw [cosineTo, hu, hv, ok_bind, ok_bind, divide, if_neg h]

theorem Point.angleTo_eq (u v : Point α) : u.angleTo v = u.cosineTo v >>= fun cosine =>
    let angle := acos (clamp cosine (-whole 1) (whole 1))
    pure (if ble (whole 0) (u.x * v.y - u.y * v.x) then angle else -angle) := by
  rw [angleTo, cosineTo]
  rcases u.length with e | a
  · rfl
  rcases v.length with e | b
  · rfl
  rfl

end Cosine

namespace Point

variable {p u v w : Point ℝ} {a : ℝ}

def toComplex (p : Point ℝ) : ℂ := ⟨p.x, p.y⟩

@[simp] theorem toComplex_re (p : Point ℝ) : p.toComplex.re = p.x := rfl

@[simp] theorem toComplex_im (p : Point ℝ) : p.toComplex.im = p.y := rfl

@[simp] theorem toComplex_add (p q : Point ℝ) :
    (p + q).toComplex = p.toComplex + q.toComplex := rfl

@[simp] theorem toComplex_sub (p q : Point ℝ) :
    (p - q).toComplex = p.toComplex - q.toComplex := rfl

theorem toComplex_mul (p q : Point ℝ) : (p * q).toComplex = p.toComplex * q.toComplex := by
  apply Complex.ext <;> simp

theorem toComplex_div (p : Point ℝ) (k : ℝ) :
    (⟨p.x / k, p.y / k⟩ : Point ℝ).toComplex = p.toComplex / k := by
  apply Complex.ext <;> simp

theorem toComplex_injective : Function.Injective toComplex := by
  intro p q h
  exact Point.ext (congrArg Complex.re h) (congrArg Complex.im h)

theorem toComplex_ne_zero (h : p ≠ ⟨0, 0⟩) : p.toComplex ≠ 0 :=
  fun hp => h (toComplex_injective hp)

theorem norm_toComplex (p : Point ℝ) : ‖p.toComplex‖ = √(p.x ^ 2 + p.y ^ 2) := by
  rw [Complex.norm_eq_sqrt_sq_add_sq]
  rfl

theorem length_eq_norm (p : Point ℝ) : p.length = .ok ‖p.toComplex‖ := by
  rw [length_real, norm_toComplex]

theorem direction_real (hp : p.toComplex ≠ 0) :
    p.direction = .ok ⟨p.x / ‖p.toComplex‖, p.y / ‖p.toComplex‖⟩ := by
  have hnorm : ‖p.toComplex‖ ≠ 0 := norm_ne_zero_iff.mpr hp
  rw [direction, length_eq_norm, ok_bind, if_neg (by simpa using hnorm), divBy_real p hnorm]

theorem toComplex_onUnitCircle (angle : ℝ) :
    (onUnitCircle angle).toComplex = Complex.exp (angle * Complex.I) := by
  apply Complex.ext
  · rw [Complex.exp_ofReal_mul_I_re, onUnitCircle_real, toComplex_re]
  · rw [Complex.exp_ofReal_mul_I_im, onUnitCircle_real, toComplex_im]

theorem toComplex_rotate (angle : ℝ) (p : Point ℝ) :
    (p.rotate angle).toComplex = Complex.exp (angle * Complex.I) * p.toComplex := by
  rw [rotate_real, toComplex_mul, toComplex_onUnitCircle]

noncomputable def quotient (u v : Point ℝ) : ℂ := v.toComplex / u.toComplex

theorem quotient_ne_zero (hu : u.toComplex ≠ 0) (hv : v.toComplex ≠ 0) : quotient u v ≠ 0 :=
  div_ne_zero hv hu

theorem quotient_mul_quotient (u w : Point ℝ) (hv : v.toComplex ≠ 0) :
    quotient u v * quotient v w = quotient u w := by
  rw [quotient, quotient, quotient, mul_comm, div_mul_div_cancel₀ hv]

theorem quotient_re (u v : Point ℝ) :
    (quotient u v).re = (u.x * v.x + u.y * v.y) / ‖u.toComplex‖ ^ 2 := by
  rw [quotient, Complex.div_re, Complex.sq_norm, ← add_div]
  simp only [toComplex_re, toComplex_im, mul_comm]

theorem quotient_im (u v : Point ℝ) :
    (quotient u v).im = (u.x * v.y - u.y * v.x) / ‖u.toComplex‖ ^ 2 := by
  rw [quotient, Complex.div_im, Complex.sq_norm, ← sub_div]
  simp only [toComplex_re, toComplex_im, mul_comm]

theorem quotient_im_nonneg_iff (hu : u.toComplex ≠ 0) :
    0 ≤ (quotient u v).im ↔ 0 ≤ u.x * v.y - u.y * v.x := by
  have hpos : 0 < ‖u.toComplex‖ ^ 2 := pow_pos (norm_pos_iff.mpr hu) 2
  rw [quotient_im, le_div_iff₀ hpos, zero_mul]

theorem cosineTo_eq_cos_arg (hu : u.toComplex ≠ 0) (hv : v.toComplex ≠ 0) :
    u.cosineTo v = .ok (Real.cos (quotient u v).arg) := by
  have hnu : ‖u.toComplex‖ ≠ 0 := norm_ne_zero_iff.mpr hu
  have hnv : ‖v.toComplex‖ ≠ 0 := norm_ne_zero_iff.mpr hv
  have hnorm : ¬ isZero (‖u.toComplex‖ * ‖v.toComplex‖) = true := by
    rw [real_isZero]
    exact mul_ne_zero hnu hnv
  have hcosine : (quotient u v).re / ‖quotient u v‖ =
      (u.x * v.x + u.y * v.y) / (‖u.toComplex‖ * ‖v.toComplex‖) := by
    rw [quotient_re, quotient, norm_div]
    field_simp
  rw [cosineTo_eq (length_eq_norm u) (length_eq_norm v) hnorm, ← hcosine,
    Complex.cos_arg (quotient_ne_zero hu hv)]

theorem clamp_cos (angle : ℝ) : clamp (Real.cos angle) (-whole 1) (whole 1) = Real.cos angle := by
  rw [real_whole, Nat.cast_one]
  exact real_clamp (Real.neg_one_le_cos angle) (Real.cos_le_one angle)

theorem angleTo_eq_arg (hu : u.toComplex ≠ 0) (hv : v.toComplex ≠ 0) :
    u.angleTo v = .ok (quotient u v).arg := by
  have hcos := Complex.cos_arg (quotient_ne_zero hu hv)
  rw [angleTo_eq, cosineTo_eq_cos_arg hu hv, ok_bind]
  dsimp only
  rw [clamp_cos, real_acos, hcos]
  by_cases hcross : 0 ≤ u.x * v.y - u.y * v.x
  · rw [if_pos (by simpa using hcross), Complex.arg_of_im_nonneg_of_ne_zero
      ((quotient_im_nonneg_iff hu).mpr hcross) (quotient_ne_zero hu hv)]
    rfl
  · have him : (quotient u v).im < 0 := by
      rw [← not_le, quotient_im_nonneg_iff hu]
      exact hcross
    rw [if_neg (by simpa using hcross), Complex.arg_of_im_neg him]
    rfl

theorem angleTo_real (hu : u.x ^ 2 + u.y ^ 2 = 1) (hv : v.x ^ 2 + v.y ^ 2 = 1) :
    ∃ θ, u.angleTo v = .ok θ ∧ -Real.pi < θ ∧ θ ≤ Real.pi ∧
      Real.cos θ = u.x * v.x + u.y * v.y ∧ Real.sin θ = u.x * v.y - u.y * v.x := by
  have hnu : ‖u.toComplex‖ = 1 := by rw [norm_toComplex, hu, Real.sqrt_one]
  have hnv : ‖v.toComplex‖ = 1 := by rw [norm_toComplex, hv, Real.sqrt_one]
  have hcu : u.toComplex ≠ 0 := norm_ne_zero_iff.mp (by rw [hnu]; exact one_ne_zero)
  have hcv : v.toComplex ≠ 0 := norm_ne_zero_iff.mp (by rw [hnv]; exact one_ne_zero)
  have hone : ‖quotient u v‖ = 1 := by rw [quotient, norm_div, hnu, hnv, div_one]
  refine ⟨_, angleTo_eq_arg hcu hcv, Complex.neg_pi_lt_arg _, Complex.arg_le_pi _, ?_, ?_⟩
  · rw [Complex.cos_arg (quotient_ne_zero hcu hcv), hone, quotient_re, hnu, one_pow, div_one,
      div_one]
  · rw [Complex.sin_arg, hone, quotient_im, hnu, one_pow, div_one, div_one]

/-- An angle within half a turn that rotates one vector into the direction of another. -/
structure Turns (u v : Point ℝ) (angle : ℝ) : Prop where
  low : -Real.pi < angle
  high : angle ≤ Real.pi
  aligned : ∃ size d, u.length = .ok size ∧ (u.rotate angle).divBy size = .ok d ∧
    v.direction = .ok d

theorem aligned_iff (hu : u.toComplex ≠ 0) (hv : v.toComplex ≠ 0) :
    (∃ size d, u.length = .ok size ∧ (u.rotate a).divBy size = .ok d ∧ v.direction = .ok d) ↔
      ‖quotient u v‖ * Complex.exp (a * Complex.I) = quotient u v := by
  have hnu : ‖u.toComplex‖ ≠ 0 := norm_ne_zero_iff.mpr hu
  have hcu : (‖u.toComplex‖ : ℂ) ≠ 0 := Complex.ofReal_ne_zero.mpr hnu
  have hcv : (‖v.toComplex‖ : ℂ) ≠ 0 := Complex.ofReal_ne_zero.mpr (norm_ne_zero_iff.mpr hv)
  have hsame : (∃ size d, u.length = .ok size ∧ (u.rotate a).divBy size = .ok d ∧
      v.direction = .ok d) ↔
      (u.rotate a).toComplex / ‖u.toComplex‖ = v.toComplex / ‖v.toComplex‖ := by
    rw [← toComplex_div, ← toComplex_div, toComplex_injective.eq_iff, direction_real hv]
    constructor
    · rintro ⟨size, d, hsize, hd, hdirection⟩
      rw [length_eq_norm, Except.ok.injEq] at hsize
      rw [← hsize, divBy_real _ hnu, Except.ok.injEq] at hd
      rw [hd]
      exact (Except.ok.inj hdirection).symm
    · intro h
      refine ⟨_, _, length_eq_norm u, divBy_real _ hnu, ?_⟩
      rw [h]
  rw [hsame, toComplex_rotate, quotient, norm_div, Complex.ofReal_div, div_eq_div_iff hcu hcv,
    div_mul_eq_mul_div, div_eq_div_iff hcu hu]
  constructor <;> intro h <;> linear_combination h

theorem turns_iff (hu : u.toComplex ≠ 0) (hv : v.toComplex ≠ 0) :
    Turns u v a ↔ a = (quotient u v).arg := by
  have hpos : 0 < ‖quotient u v‖ := norm_pos_iff.mpr (quotient_ne_zero hu hv)
  constructor
  · intro h
    have harg := Complex.arg_mul_cos_add_sin_mul_I hpos ⟨h.low, h.high⟩
    rwa [← Complex.exp_mul_I, (aligned_iff hu hv).mp h.aligned, eq_comm] at harg
  · rintro rfl
    exact ⟨Complex.neg_pi_lt_arg _, Complex.arg_le_pi _,
      (aligned_iff hu hv).mpr (Complex.norm_mul_exp_arg_mul_I _)⟩

/-- The arguments of two quotients in a row add up to that of the whole, apart from full turns. -/
theorem exists_arg_add_arg (hu : u.toComplex ≠ 0) (hv : v.toComplex ≠ 0)
    (hw : w.toComplex ≠ 0) :
    ∃ n : ℤ, (quotient u v).arg + (quotient v w).arg = (quotient u w).arg + n * fullTurn := by
  have hangle : (((quotient u v).arg + (quotient v w).arg : ℝ) : Real.Angle) =
      ((quotient u w).arg : ℝ) := by
    rw [Real.Angle.coe_add, ← Complex.arg_mul_coe_angle (quotient_ne_zero hu hv)
      (quotient_ne_zero hv hw), quotient_mul_quotient u w hv]
  obtain ⟨n, hn⟩ := Real.Angle.angle_eq_iff_two_pi_dvd_sub.mp hangle
  refine ⟨n, ?_⟩
  rw [real_fullTurn]
  linear_combination hn

/-- The angle between two vectors is the one within half a turn that rotates the first into the
direction of the second, its cosine needs no bringing back into its range, and angles in a row add
up, apart from full turns. -/
theorem angleTo_turns (u v : Point ℝ) (hu : u ≠ ⟨0, 0⟩) (hv : v ≠ ⟨0, 0⟩) :
    ∃ a, u.angleTo v = .ok a ∧ Turns u v a ∧ (∀ a', Turns u v a' → a' = a) ∧
      (∃ cosine, u.cosineTo v = .ok cosine ∧ clamp cosine (-whole 1) (whole 1) = cosine) ∧
      ∀ w : Point ℝ, w ≠ ⟨0, 0⟩ → ∃ (b c : ℝ) (n : ℤ), v.angleTo w = .ok b ∧
        u.angleTo w = .ok c ∧ a + b = c + n * fullTurn := by
  have hcu := toComplex_ne_zero hu
  have hcv := toComplex_ne_zero hv
  refine ⟨_, angleTo_eq_arg hcu hcv, (turns_iff hcu hcv).mpr rfl, ?_, ?_, ?_⟩
  · exact fun a' h => (turns_iff hcu hcv).mp h
  · exact ⟨_, cosineTo_eq_cos_arg hcu hcv, clamp_cos _⟩
  · intro w hw
    have hcw := toComplex_ne_zero hw
    obtain ⟨n, hn⟩ := exists_arg_add_arg hcu hcv hcw
    exact ⟨_, _, n, angleTo_eq_arg hcv hcw, angleTo_eq_arg hcu hcw, hn⟩

theorem angleTo_turns_half_turn :
    let u : Point ℝ := ⟨2, 0⟩
    let v : Point ℝ := ⟨-3, 0⟩
    let w : Point ℝ := ⟨0, -1⟩
    u ≠ ⟨0, 0⟩ ∧ v ≠ ⟨0, 0⟩ ∧ w ≠ ⟨0, 0⟩ ∧ u.angleTo v = .ok Real.pi ∧
      ∃ (b c : ℝ) (n : ℤ), v.angleTo w = .ok b ∧ u.angleTo w = .ok c ∧
        Real.pi + b = c + n * fullTurn := by
  intro u v w
  have hu : u ≠ ⟨0, 0⟩ := by simp [u]
  have hv : v ≠ ⟨0, 0⟩ := by simp [v]
  have hw : w ≠ ⟨0, 0⟩ := by simp [w]
  have hrotate : u.rotate Real.pi = ⟨-2, 0⟩ := by
    rw [rotate_real, onUnitCircle_real, Real.cos_pi, Real.sin_pi]
    ext <;> simp [u]
  have hlength : u.length = .ok 2 := by
    rw [length_real]
    norm_num [u]
  have hdirection : v.direction = .ok ⟨-1, 0⟩ := by
    rw [direction_real (toComplex_ne_zero hv), norm_toComplex]
    norm_num [v]
  have hturns : Turns u v Real.pi := by
    refine ⟨by linarith [Real.pi_pos], le_refl _, 2, ⟨-1, 0⟩, hlength, ?_, hdirection⟩
    rw [hrotate, divBy_real _ two_ne_zero]
    norm_num
  obtain ⟨a, ha, -, hunique, -, hrow⟩ := angleTo_turns u v hu hv
  obtain rfl := hunique _ hturns
  exact ⟨hu, hv, hw, ha, hrow w hw⟩

end Point

end Linework
