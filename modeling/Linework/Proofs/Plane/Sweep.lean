import Linework.Proofs.Plane.Fit
import Linework.Proofs.Plane.Turn

/-!
# The sweep of an arc

The two ends of an arc enclose a least angle, which is brought to the direction that was asked for
by a full turn. On which side of the chord the centre lies tells the sign of the least angle, and
so whether the sweep becomes the larger one.
-/

set_option autoImplicit false

namespace Linework.EndpointArc

open Scalar

section Directed

variable {θ : ℝ}

theorem directed_real (clockwise : Bool) (θ : ℝ) :
    directed clockwise θ = if clockwise then (if θ < 0 then θ + 2 * Real.pi else θ)
      else if 0 < θ then θ - 2 * Real.pi else θ := by
  cases clockwise <;> simp [directed, real_fullTurn]

theorem cos_directed (clockwise : Bool) (θ : ℝ) : Real.cos (directed clockwise θ) = Real.cos θ := by
  rw [directed_real]
  split_ifs <;> simp

theorem sin_directed (clockwise : Bool) (θ : ℝ) : Real.sin (directed clockwise θ) = Real.sin θ := by
  rw [directed_real]
  split_ifs <;> simp

theorem directed_range (clockwise : Bool) (h : θ ≠ 0) (hlow : -Real.pi < θ) (hhigh : θ ≤ Real.pi) :
    0 < |directed clockwise θ| ∧ |directed clockwise θ| < 2 * Real.pi ∧
      (0 < directed clockwise θ ↔ clockwise = true) := by
  have hpi := Real.pi_pos
  cases clockwise with
  | true =>
    have hpos : 0 < directed true θ ∧ directed true θ < 2 * Real.pi := by
      rw [directed_real, if_pos rfl]
      split_ifs with hneg
      · constructor <;> linarith
      · have hθ : 0 < θ := lt_of_le_of_ne (not_lt.mp hneg) h.symm
        constructor <;> linarith
    rw [abs_of_pos hpos.1]
    exact ⟨hpos.1, hpos.2, by simp [hpos.1]⟩
  | false =>
    have hneg : directed false θ < 0 ∧ -(2 * Real.pi) < directed false θ := by
      rw [directed_real, if_neg (by simp)]
      split_ifs with hpos
      · constructor <;> linarith
      · have hθ : θ < 0 := lt_of_le_of_ne (not_lt.mp hpos) h
        constructor <;> linarith
    rw [abs_of_neg hneg.1]
    exact ⟨by linarith, by linarith, by simp [hneg.1.le]⟩

theorem directed_pi (clockwise : Bool) : |directed clockwise Real.pi| = Real.pi := by
  have hpi := Real.pi_pos
  rw [directed_real]
  cases clockwise with
  | true => simp [not_lt.mpr hpi.le, abs_of_pos hpi]
  | false =>
    have hsub : Real.pi - 2 * Real.pi = -Real.pi := by ring
    simp [hpi, hsub, abs_of_pos hpi]

/-- A sweep is the larger one if the least angle had to be brought to the direction. -/
theorem directed_large (clockwise : Bool) (h : θ ≠ 0) (hlow : -Real.pi < θ) (hhigh : θ < Real.pi) :
    Real.pi < |directed clockwise θ| ↔ (clockwise = true ↔ θ < 0) := by
  have hpi := Real.pi_pos
  rw [directed_real]
  rcases lt_or_gt_of_ne h with hθ | hθ
  · cases clockwise with
    | true =>
      have hpos : 0 < θ + 2 * Real.pi := by linarith
      rw [if_pos rfl, if_pos hθ, abs_of_pos hpos]
      exact iff_of_true (by linarith) (by simp [hθ])
    | false =>
      rw [if_neg (by simp), if_neg (not_lt.mpr hθ.le), abs_of_neg hθ]
      exact iff_of_false (by linarith) (by simp [hθ])
  · cases clockwise with
    | true =>
      rw [if_pos rfl, if_neg (not_lt.mpr hθ.le), abs_of_pos hθ]
      exact iff_of_false (by linarith) (by simp [hθ.le])
    | false =>
      have hneg : θ - 2 * Real.pi < 0 := by linarith
      rw [if_neg (by simp), if_pos hθ, abs_of_neg hneg]
      exact iff_of_true (by linarith) (by simp [hθ.le])

end Directed

theorem turned_unit {u v : Point ℝ} {θ₁ θ : ℝ} (hu : u.x ^ 2 + u.y ^ 2 = 1)
    (hc₁ : Real.cos θ₁ = u.x) (hs₁ : Real.sin θ₁ = u.y)
    (hc : Real.cos θ = u.x * v.x + u.y * v.y) (hs : Real.sin θ = u.x * v.y - u.y * v.x) :
    Real.cos (θ₁ + θ) = v.x ∧ Real.sin (θ₁ + θ) = v.y := by
  rw [Real.cos_add, Real.sin_add, hc₁, hs₁, hc, hs]
  constructor
  · linear_combination v.x * hu
  · linear_combination v.y * hu

/-- The two angles of an arc, for half a chord `p` in the frame of its ellipse. -/
structure Angles (radii p : Point ℝ) (otherSide : Bool) (first least : ℝ) : Prop where
  first_eq : (⟨1, 0⟩ : Point ℝ).angleTo (seen radii p otherSide p) = .ok first
  least_eq : (seen radii p otherSide p).angleTo (seen radii p otherSide ⟨-p.x, -p.y⟩) = .ok least
  first_range : -Real.pi < first ∧ first ≤ Real.pi
  least_range : -Real.pi < least ∧ least ≤ Real.pi
  begins : Real.cos first = (seen radii p otherSide p).x ∧
    Real.sin first = (seen radii p otherSide p).y
  ends : Real.cos (first + least) = (seen radii p otherSide ⟨-p.x, -p.y⟩).x ∧
    Real.sin (first + least) = (seen radii p otherSide ⟨-p.x, -p.y⟩).y
  cos_least : Real.cos least = 1 - 2 * checkOf radii p
  sin_least : Real.sin least = 2 * offset (checkOf radii p) otherSide * checkOf radii p

theorem exists_angles {radii p : Point ℝ} (hx : radii.x ≠ 0) (hy : radii.y ≠ 0) (hp : p ≠ ⟨0, 0⟩)
    (hc : checkOf radii p ≤ 1) (otherSide : Bool) :
    ∃ first least, Angles radii p otherSide first least := by
  obtain ⟨hu, hv, hdot, hcross⟩ := seen_products hx hy hp hc otherSide
  have hone : (⟨1, 0⟩ : Point ℝ).x ^ 2 + (⟨1, 0⟩ : Point ℝ).y ^ 2 = 1 := by norm_num
  obtain ⟨first, hfirst, hlow, hhigh, hcos, hsin⟩ := Point.angleTo_real hone hu
  obtain ⟨least, hleast, hlow', hhigh', hcos', hsin'⟩ := Point.angleTo_real hu hv
  have hbegin : Real.cos first = (seen radii p otherSide p).x ∧
      Real.sin first = (seen radii p otherSide p).y := by
    rw [hcos, hsin]
    constructor <;> ring
  exact ⟨first, least, hfirst, hleast, ⟨hlow, hhigh⟩, ⟨hlow', hhigh'⟩, hbegin,
    turned_unit hu hbegin.1 hbegin.2 hcos' hsin', hcos'.trans hdot, hsin'.trans hcross⟩

namespace Angles

variable {radii p : Point ℝ} {otherSide : Bool} {first least : ℝ}

theorem least_ne_zero (h : Angles radii p otherSide first least) (hpos : 0 < checkOf radii p) :
    least ≠ 0 := by
  rintro rfl
  have hcos := h.cos_least
  rw [Real.cos_zero] at hcos
  linarith

theorem least_eq_pi (h : Angles radii p otherSide first least) (hc : checkOf radii p = 1) :
    least = Real.pi := by
  have hcos : Real.cos least = -1 := by
    rw [h.cos_least, hc]
    norm_num
  have habs : |least| = Real.pi := by
    apply Real.injOn_cos ⟨abs_nonneg _, abs_le.mpr ⟨h.least_range.1.le, h.least_range.2⟩⟩
      ⟨Real.pi_pos.le, le_rfl⟩
    rw [Real.cos_abs, hcos, Real.cos_pi]
  rcases abs_choice least with hl | hl
  · rw [← hl, habs]
  · linarith [h.least_range.1]

theorem least_neg_iff (h : Angles radii p otherSide first least) (hpos : 0 < checkOf radii p)
    (hc : checkOf radii p < 1) : least < Real.pi ∧ (least < 0 ↔ otherSide = true) := by
  have hsin := h.sin_least
  have hpi : least ≠ Real.pi → least < Real.pi := lt_of_le_of_ne h.least_range.2
  obtain ⟨hneg, hpos'⟩ := offset_neg_iff hpos hc otherSide
  cases otherSide with
  | true =>
    have hlt : Real.sin least < 0 := by
      rw [hsin]
      nlinarith [hneg.mpr rfl]
    have hleast : least < 0 := by
      by_contra hn
      linarith [Real.sin_nonneg_of_nonneg_of_le_pi (not_lt.mp hn) h.least_range.2]
    exact ⟨by linarith [Real.pi_pos], iff_of_true hleast rfl⟩
  | false =>
    have hlt : 0 < Real.sin least := by
      rw [hsin]
      have := hpos'.mpr rfl
      positivity
    have hleast : 0 < least := by
      by_contra hn
      linarith [Real.sin_nonpos_of_nonpos_of_neg_pi_le (not_lt.mp hn) h.least_range.1.le]
    refine ⟨hpi ?_, iff_of_false (not_lt.mpr hleast.le) (by simp)⟩
    rintro rfl
    rw [Real.sin_pi] at hlt
    exact lt_irrefl 0 hlt

theorem ends_directed (h : Angles radii p otherSide first least) (clockwise : Bool) :
    Real.cos (first + directed clockwise least) = (seen radii p otherSide ⟨-p.x, -p.y⟩).x ∧
      Real.sin (first + directed clockwise least) = (seen radii p otherSide ⟨-p.x, -p.y⟩).y := by
  have hends := h.ends
  rw [Real.cos_add, Real.sin_add] at hends ⊢
  rwa [cos_directed, sin_directed]

end Angles

end Linework.EndpointArc
