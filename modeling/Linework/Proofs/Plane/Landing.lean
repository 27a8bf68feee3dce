import Linework.Proofs.Plane.OvalPieces

/-!
# Where a sweep ends

From one angle to another it is a certain way in the direction that is asked for, which may be less
than nothing or more than a turn. The sweep is what is left of this way when whole turns have been
taken off it, unless there is a full turn or more to go, which counts as one turn. So a sweep ends
at the angle it was asked to end at, if whole turns do not count, and a full turn ends where it
begins.
-/

set_option autoImplicit false

namespace Linework

open Scalar

def way (anticlockwise : Bool) : ℝ := if anticlockwise then -1 else 1

/-- How far it is from one angle to another one in a direction, as it is asked for. -/
def reach (θ₁ θ₂ : ℝ) (anticlockwise : Bool) : ℝ :=
  if anticlockwise then θ₁ - θ₂ else θ₂ - θ₁

/-- What it means that `δ` is the sweep between two angles. -/
structure Sweeps (θ₁ θ₂ : ℝ) (anticlockwise : Bool) (δ : ℝ) : Prop where
  clockwise_range : anticlockwise = false → 0 ≤ δ ∧ δ ≤ 2 * Real.pi
  anticlockwise_range : anticlockwise = true → -(2 * Real.pi) ≤ δ ∧ δ ≤ 0
  full_iff : |δ| = 2 * Real.pi ↔ 2 * Real.pi ≤ reach θ₁ θ₂ anticlockwise
  whole_turns : reach θ₁ θ₂ anticlockwise < 2 * Real.pi →
    ∃ k : ℤ, θ₁ + δ - θ₂ = k * (2 * Real.pi)
  lands : ∀ e : Ellipse ℝ, ∃ arc, Arc.ofSweep e θ₁ δ none none = .ok arc ∧
    (reach θ₁ θ₂ anticlockwise < 2 * Real.pi → e.pointAt θ₂ = .ok arc.finish) ∧
    (2 * Real.pi ≤ reach θ₁ θ₂ anticlockwise → e.pointAt θ₁ = .ok arc.finish)

section Sweep

variable {θ₁ θ₂ : ℝ} {anticlockwise : Bool}

theorem abs_way_mul (anticlockwise : Bool) (x : ℝ) : |way anticlockwise * x| = |x| := by
  cases anticlockwise <;> simp [way]

theorem reach_eq (θ₁ θ₂ : ℝ) (anticlockwise : Bool) :
    reach θ₁ θ₂ anticlockwise = way anticlockwise * (θ₂ - θ₁) := by
  cases anticlockwise <;> simp [reach, way]

theorem sweepBetween_eq_way_mul (θ₁ θ₂ : ℝ) (anticlockwise : Bool) :
    sweepBetween θ₁ θ₂ anticlockwise = way anticlockwise *
      if 2 * Real.pi ≤ reach θ₁ θ₂ anticlockwise then 2 * Real.pi
      else floorMod (reach θ₁ θ₂ anticlockwise) (2 * Real.pi) := by
  cases anticlockwise <;> simp [sweepBetween, reach, way, real_fullTurn]

theorem sweepBetween_of_full (h : 2 * Real.pi ≤ reach θ₁ θ₂ anticlockwise) :
    sweepBetween θ₁ θ₂ anticlockwise = way anticlockwise * (2 * Real.pi) := by
  rw [sweepBetween_eq_way_mul, if_pos h]

theorem exists_sweepBetween (h : reach θ₁ θ₂ anticlockwise < 2 * Real.pi) :
    ∃ (k : ℤ) (rest : ℝ), reach θ₁ θ₂ anticlockwise - rest = k * (2 * Real.pi) ∧
      0 ≤ rest ∧ rest < 2 * Real.pi ∧
      sweepBetween θ₁ θ₂ anticlockwise = way anticlockwise * rest := by
  obtain ⟨hlow, hhigh⟩ := real_floorMod_range (x := reach θ₁ θ₂ anticlockwise) Real.two_pi_pos
  refine ⟨⌊reach θ₁ θ₂ anticlockwise / (2 * Real.pi)⌋, _, ?_, hlow, hhigh, ?_⟩
  · change _ - (_ - 2 * Real.pi * _) = _
    ring
  · rw [sweepBetween_eq_way_mul, if_neg h.not_ge]

theorem Ellipse.point_of_whole_turns (e : Ellipse ℝ) {a b : ℝ} {k : ℤ}
    (h : a - b = k * (2 * Real.pi)) : e.point a = e.point b := by
  obtain rfl : a = b + k * (2 * Real.pi) := by linarith
  exact e.point_congr (Real.cos_add_int_mul_two_pi b k) (Real.sin_add_int_mul_two_pi b k)

theorem whole_turns_of_reach_lt (h : reach θ₁ θ₂ anticlockwise < 2 * Real.pi) :
    ∃ k : ℤ, θ₁ + sweepBetween θ₁ θ₂ anticlockwise - θ₂ = k * (2 * Real.pi) := by
  obtain ⟨k, rest, hk, -, -, hsweep⟩ := exists_sweepBetween h
  rw [hsweep]
  rw [reach_eq] at hk
  cases anticlockwise with
  | true =>
    refine ⟨k, ?_⟩
    simp only [way, if_true] at hk ⊢
    linarith
  | false =>
    refine ⟨-k, ?_⟩
    simp only [way, Bool.false_eq_true, if_false] at hk ⊢
    push_cast
    linarith

theorem Ellipse.point_add_sweepBetween (e : Ellipse ℝ) (θ₁ θ₂ : ℝ) (anticlockwise : Bool) :
    e.point (θ₁ + sweepBetween θ₁ θ₂ anticlockwise) =
      if 2 * Real.pi ≤ reach θ₁ θ₂ anticlockwise then e.point θ₁ else e.point θ₂ := by
  split
  · next h =>
    rw [sweepBetween_of_full h]
    cases anticlockwise with
    | true => exact e.point_of_whole_turns (k := -1) (by simp [way])
    | false => exact e.point_of_whole_turns (k := 1) (by simp [way])
  · next h =>
    obtain ⟨k, hk⟩ := whole_turns_of_reach_lt (not_le.mp h)
    exact e.point_of_whole_turns hk

theorem Arc.ofSweep_none (e : Ellipse ℝ) (θ δ : ℝ) :
    Arc.ofSweep e θ δ none none = .ok ⟨e, θ, δ, e.point θ, e.point (θ + δ)⟩ := by
  rw [ofSweep]
  simp only [e.pointAt_point]
  rfl

theorem sweeps_sweepBetween (θ₁ θ₂ : ℝ) (anticlockwise : Bool) :
    Sweeps θ₁ θ₂ anticlockwise (sweepBetween θ₁ θ₂ anticlockwise) := by
  have hpi := Real.two_pi_pos
  have hlands (e : Ellipse ℝ) := e.point_add_sweepBetween θ₁ θ₂ anticlockwise
  have hlands' : ∀ e : Ellipse ℝ, ∃ arc,
      Arc.ofSweep e θ₁ (sweepBetween θ₁ θ₂ anticlockwise) none none = .ok arc ∧
      (reach θ₁ θ₂ anticlockwise < 2 * Real.pi → e.pointAt θ₂ = .ok arc.finish) ∧
      (2 * Real.pi ≤ reach θ₁ θ₂ anticlockwise → e.pointAt θ₁ = .ok arc.finish) := by
    intro e
    refine ⟨_, Arc.ofSweep_none e _ _, fun h => ?_, fun h => ?_⟩
    · rw [e.pointAt_point, hlands, if_neg h.not_ge]
    · rw [e.pointAt_point, hlands, if_pos h]
  by_cases h : 2 * Real.pi ≤ reach θ₁ θ₂ anticlockwise
  · have hsweep := sweepBetween_of_full h
    refine ⟨?_, ?_, ?_, fun hlt => absurd h hlt.not_ge, hlands'⟩
    · rintro rfl
      simp [hsweep, way, hpi.le]
    · rintro rfl
      simp [hsweep, way, hpi.le]
    · rw [hsweep, abs_way_mul, abs_of_pos hpi]
      exact iff_of_true rfl h
  · obtain ⟨k, rest, -, h0, hlt, hsweep⟩ := exists_sweepBetween (not_le.mp h)
    refine ⟨?_, ?_, ?_, whole_turns_of_reach_lt, hlands'⟩
    · rintro rfl
      simp [hsweep, way, h0, hlt.le]
    · rintro rfl
      simp [hsweep, way, h0, hlt.le]
    · rw [hsweep, abs_way_mul, abs_of_nonneg h0]
      exact iff_of_false hlt.ne h

end Sweep

end Linework
