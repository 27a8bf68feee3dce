import Mathlib.Analysis.SpecialFunctions.Complex.Arg
import Linework.Number.Scalar

/-!
# The reals as scalars

With the reals for coordinates the geometry is computed exactly. Every comparison is the one of
the reals, nothing is infinite and nothing is no number.
-/

set_option autoImplicit false

namespace Linework

open Classical in
noncomputable instance : Scalar ℝ where
  ofDecimal d := (if d.negative then -1 else 1) * d.digits * (10 : ℝ) ^ d.power
  pi := Real.pi
  isFinite _ := true
  beq x y := decide (x = y)
  blt x y := decide (x < y)
  ble x y := decide (x ≤ y)
  sqrt := Real.sqrt
  sin := Real.sin
  cos := Real.cos
  tan := Real.tan
  acos := Real.arccos
  atan2 y x := Complex.arg ⟨x, y⟩
  hypot x y := √(x ^ 2 + y ^ 2)
  floorMod x y := x - y * ⌊x / y⌋

namespace Scalar

variable {x y : ℝ}

@[simp] theorem real_whole (n : Nat) : (whole n : ℝ) = n := by
  change (1 : ℝ) * n * (10 : ℝ) ^ (0 : ℤ) = n
  simp

@[simp] theorem real_pi : (pi : ℝ) = Real.pi := rfl

@[simp] theorem real_sqrt (x : ℝ) : sqrt x = √x := rfl

@[simp] theorem real_sin (x : ℝ) : sin x = Real.sin x := rfl

@[simp] theorem real_cos (x : ℝ) : cos x = Real.cos x := rfl

@[simp] theorem real_acos (x : ℝ) : acos x = Real.arccos x := rfl

@[simp] theorem real_isFinite (x : ℝ) : isFinite x = true := rfl

@[simp] theorem real_beq : beq x y = true ↔ x = y := decide_eq_true_iff

@[simp] theorem real_blt : blt x y = true ↔ x < y := decide_eq_true_iff

@[simp] theorem real_ble : ble x y = true ↔ x ≤ y := decide_eq_true_iff

@[simp] theorem real_isZero : isZero x = true ↔ x = 0 := by
  rw [isZero, real_beq, real_whole, Nat.cast_zero]

@[simp] theorem real_isNaN (x : ℝ) : isNaN x = false := by
  rw [isNaN, real_beq.mpr rfl, Bool.not_true]

@[simp] theorem real_magnitude (x : ℝ) : magnitude x = |x| := by
  rw [magnitude]
  by_cases h : x < 0
  · rw [if_pos (by simpa using h), abs_of_neg h]
  · rw [if_neg (by simpa using h), abs_of_nonneg (not_lt.mp h)]

@[simp] theorem real_atLeastZero (x : ℝ) : atLeastZero x = max x 0 := by
  rw [atLeastZero]
  by_cases h : x < 0
  · rw [if_pos (by simpa using h), max_eq_right h.le, real_whole, Nat.cast_zero]
  · rw [if_neg (by simpa using h), max_eq_left (not_lt.mp h)]

theorem real_clamp {low high : ℝ} (hl : low ≤ x) (hh : x ≤ high) : clamp x low high = x := by
  simp [clamp, not_lt.mpr hl, not_lt.mpr hh]

theorem real_fullTurn : (fullTurn : ℝ) = 2 * Real.pi := by
  rw [fullTurn, real_whole, real_pi, Nat.cast_ofNat]

end Scalar

end Linework
