import Linework.Proofs.Plane.RealPoint
import Linework.Proofs.Act

/-!
# The pieces of an oval

An oval is asked for by two angles and a direction, and is taken apart into arcs between points.
Computed exactly, the sweep between an angle and one that is less than a full turn further on is
what lies between them, and there is one piece unless the sweep counts as a full turn.
-/

set_option autoImplicit false

namespace Linework

open Scalar

namespace Scalar

variable {x y : ℝ}

theorem real_place (n : Nat) : (place n : ℝ) = 1 / 10 ^ n := by
  change (1 : ℝ) * (1 : ℕ) * (10 : ℝ) ^ (-(n : ℤ)) = 1 / 10 ^ n
  rw [zpow_neg, zpow_natCast]
  simp

theorem real_isClose : isClose x y = true ↔ |x - y| < 1 / 10 ^ 8 + 1 / 10 ^ 5 * |y| := by
  rw [isClose, real_blt, real_magnitude, real_magnitude, real_place, real_place]

theorem real_floorMod_of_lt (h0 : 0 ≤ x) (h : x < y) : floorMod x y = x := by
  have hfloor : ⌊x / y⌋ = 0 := by
    rw [Int.floor_eq_zero_iff, Set.mem_Ico]
    exact ⟨div_nonneg h0 (h0.trans h.le), (div_lt_one (h0.trans_lt h)).mpr h⟩
  change x - y * ⌊x / y⌋ = x
  rw [hfloor, Int.cast_zero, mul_zero, sub_zero]

theorem real_floorMod_range (h : 0 < y) :
    0 ≤ floorMod x y ∧ floorMod x y < y := by
  have hmod : floorMod x y = y * Int.fract (x / y) := by
    change x - y * ⌊x / y⌋ = _
    rw [Int.fract, mul_sub, mul_div_cancel₀ _ h.ne']
  rw [hmod]
  exact ⟨mul_nonneg h.le (Int.fract_nonneg _), by nlinarith [Int.fract_lt_one (x / y)]⟩

theorem cos_floorMod (x : ℝ) : Real.cos (floorMod x (2 * Real.pi)) = Real.cos x := by
  change Real.cos (x - 2 * Real.pi * ⌊x / (2 * Real.pi)⌋) = _
  rw [mul_comm, Real.cos_sub_int_mul_two_pi]

theorem sin_floorMod (x : ℝ) : Real.sin (floorMod x (2 * Real.pi)) = Real.sin x := by
  change Real.sin (x - 2 * Real.pi * ⌊x / (2 * Real.pi)⌋) = _
  rw [mul_comm, Real.sin_sub_int_mul_two_pi]

theorem real_toDegrees_ofDegrees (x : ℝ) : toDegrees (ofDegrees x) = x := by
  have hpi := Real.pi_ne_zero
  rw [toDegrees, ofDegrees, real_pi, real_whole]
  field_simp

theorem real_ofDegrees_toDegrees (x : ℝ) : ofDegrees (toDegrees x) = x := by
  have hpi := Real.pi_ne_zero
  rw [toDegrees, ofDegrees, real_pi, real_whole]
  field_simp

end Scalar

theorem angle_eq_of_cos_sin {a b : ℝ} (hcos : Real.cos a = Real.cos b)
    (hsin : Real.sin a = Real.sin b) (h : |a - b| < 2 * Real.pi) : a = b := by
  have hone : Real.cos (a - b) = 1 := by
    rw [Real.cos_sub, hcos, hsin, ← pow_two, ← pow_two, Real.cos_sq_add_sin_sq]
  rw [abs_lt] at h
  exact sub_eq_zero.mp ((Real.cos_eq_one_iff_of_lt_of_lt h.1 h.2).mp hone)

theorem sweepBetween_add {δ : ℝ} (θ : ℝ) (h : |δ| < 2 * Real.pi) :
    sweepBetween θ (θ + δ) (blt δ (whole 0)) = δ := by
  rw [abs_lt] at h
  have hforth : θ + δ - θ = δ := by ring
  have hback : θ - (θ + δ) = -δ := by ring
  rw [sweepBetween, hforth, hback, real_fullTurn]
  by_cases hδ : δ < 0
  · rw [if_pos (by simpa using hδ), if_neg (by simp; linarith),
      real_floorMod_of_lt (by linarith) (by linarith), neg_neg]
  · rw [if_neg (by simpa using hδ), if_neg (by simpa using h.2),
      real_floorMod_of_lt (not_lt.mp hδ) h.2]

theorem abs_sweepBetween_le (θ₁ θ₂ : ℝ) (anticlockwise : Bool) :
    |sweepBetween θ₁ θ₂ anticlockwise| ≤ 2 * Real.pi := by
  have hpi : (0 : ℝ) < 2 * Real.pi := Real.two_pi_pos
  have hforth := real_floorMod_range (x := θ₂ - θ₁) hpi
  have hback := real_floorMod_range (x := θ₁ - θ₂) hpi
  rw [sweepBetween, real_fullTurn, abs_le]
  split_ifs
  · constructor <;> linarith
  · constructor <;> linarith
  · constructor <;> linarith
  · constructor <;> linarith

/-- The sweep between angles less than a full turn apart is any signed angle between the points of
the circle that they designate. -/
theorem sweepBetween_eq {θ₁ θ₂ δ : ℝ} (h : |θ₂ - θ₁| < 2 * Real.pi) (h0 : δ ≠ 0)
    (hδ : |δ| < 2 * Real.pi) (hcos : Real.cos (θ₂ - θ₁) = Real.cos δ)
    (hsin : Real.sin (θ₂ - θ₁) = Real.sin δ) :
    sweepBetween θ₁ θ₂ (blt δ (whole 0)) = δ := by
  have hpi : (0 : ℝ) < 2 * Real.pi := Real.two_pi_pos
  rw [abs_lt] at h hδ
  rw [sweepBetween, real_fullTurn]
  rcases lt_or_gt_of_ne h0 with hneg | hpos
  · have hrange := real_floorMod_range (x := θ₁ - θ₂) hpi
    rw [if_pos (by simpa using hneg), if_neg (by simp; linarith), neg_eq_iff_eq_neg]
    apply angle_eq_of_cos_sin
    · rw [cos_floorMod, Real.cos_neg, ← hcos, ← Real.cos_neg, neg_sub]
    · rw [sin_floorMod, Real.sin_neg, ← hsin, ← Real.sin_neg, neg_sub]
    · rw [abs_lt]
      constructor <;> linarith
  · have hrange := real_floorMod_range (x := θ₂ - θ₁) hpi
    rw [if_neg (by simpa using hpos.le), if_neg (by simpa using h.2)]
    apply angle_eq_of_cos_sin
    · rw [cos_floorMod, hcos]
    · rw [sin_floorMod, hsin]
    · rw [abs_lt]
      constructor <;> linarith

/-- How far from a full turn a sweep still counts as one. -/
noncomputable def turnTolerance : ℝ := place 8 + place 5 * fullTurn

theorem turnTolerance_eq : turnTolerance = 1 / 10 ^ 8 + 1 / 10 ^ 5 * (2 * Real.pi) := by
  rw [turnTolerance, real_place, real_place, real_fullTurn]

theorem turnTolerance_lt_pi : turnTolerance < Real.pi := by
  have hpi := Real.two_le_pi
  rw [turnTolerance_eq]
  linarith

theorem isClose_fullTurn {δ : ℝ} (h : |δ| < 2 * Real.pi) :
    isClose |δ| fullTurn = true ↔ 2 * Real.pi - |δ| < turnTolerance := by
  have hpi := Real.pi_pos
  rw [real_isClose, real_fullTurn, abs_sub_comm, abs_of_pos (sub_pos.mpr h),
    abs_of_pos (by linarith : 0 < 2 * Real.pi), turnTolerance_eq]

namespace Oval

variable {o : Oval ℝ} {start finish : Point ℝ}

noncomputable def piece (o : Oval ℝ) (large : Bool) (finish : Point ℝ) : EndpointArc ℝ :=
  ⟨o.ellipse.radii, toDegrees o.ellipse.rotation, large, blt (whole 0) o.sweep, finish⟩

theorem pieces_eq_bind (hs : o.ellipse.pointAt o.startAngle = .ok start)
    (hf : o.ellipse.pointAt (o.startAngle + o.sweep) = .ok finish) :
    o.pieces = (o.piecesOf ⟨o.ellipse, o.startAngle, o.sweep, start, finish⟩ >>=
      fun list => .ok (start, list)) := by
  rw [pieces, toArc, Arc.ofSweep, hs, hf]
  rfl

theorem pieces_one (hs : o.ellipse.pointAt o.startAngle = .ok start)
    (hf : o.ellipse.pointAt (o.startAngle + o.sweep) = .ok finish) (hne : o.sweep ≠ 0)
    (hturn : ¬ isClose |o.sweep| fullTurn = true) :
    o.pieces = .ok (start, [o.piece (blt Real.pi |o.sweep|) finish]) := by
  rw [pieces_eq_bind hs hf, piecesOf]
  simp only [real_magnitude, real_pi]
  rw [if_neg (by simpa using hne), if_neg hturn]
  rfl

theorem pieces_two {middle : Point ℝ} (hs : o.ellipse.pointAt o.startAngle = .ok start)
    (hf : o.ellipse.pointAt (o.startAngle + o.sweep) = .ok finish) (hne : o.sweep ≠ 0)
    (hturn : isClose |o.sweep| fullTurn = true)
    (hm : o.ellipse.pointAt (o.startAngle + o.sweep / 2) = .ok middle) :
    o.pieces = .ok (start, [o.piece false middle, o.piece false start]) := by
  have htwo : (whole 2 : ℝ) = 2 := by simp
  rw [pieces_eq_bind hs hf, piecesOf]
  simp only [real_magnitude, htwo]
  rw [if_neg (by simpa using hne), if_pos hturn, hm]
  rfl

end Oval

end Linework
