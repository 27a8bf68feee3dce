import Linework.Proofs.Plane.RealPoint
import Linework.Proofs.Act

/-!
# Fitting an ellipse to a chord

In the frame of its ellipse an arc between two points is given by its radii and by half the chord.
The radii are scaled up until the chord fits, and the centre is chosen on one side of the chord.
Seen from there in units of the radii both ends are on the unit circle, and their products are
known.
-/

set_option autoImplicit false

namespace Linework.EndpointArc

open Scalar

section Fitting

variable {radii p inner : Point ℝ}

noncomputable def checkOf (radii p : Point ℝ) : ℝ := (p.x / radii.x) ^ 2 + (p.y / radii.y) ^ 2

theorem checkOf_pos (hx : radii.x ≠ 0) (hy : radii.y ≠ 0) (hp : p ≠ ⟨0, 0⟩) :
    0 < checkOf radii p := by
  have h : p.x / radii.x ≠ 0 ∨ p.y / radii.y ≠ 0 := by
    by_contra hn
    push Not at hn
    exact hp (Point.ext ((div_eq_zero_iff.mp hn.1).resolve_right hx)
      ((div_eq_zero_iff.mp hn.2).resolve_right hy))
  rw [checkOf]
  rcases h with h | h <;> positivity

theorem spread_eq (hx : radii.x ≠ 0) (hy : radii.y ≠ 0) :
    radii.x * radii.x * (p.y * p.y) + radii.y * radii.y * (p.x * p.x) =
      radii.x ^ 2 * radii.y ^ 2 * checkOf radii p := by
  rw [checkOf]
  field_simp
  ring

theorem excess_real (hx : radii.x ≠ 0) (hy : radii.y ≠ 0) :
    excess radii p = .ok (checkOf radii p) := by
  rw [excess, real_divide _ (mul_ne_zero hx hx), real_divide _ (mul_ne_zero hy hy)]
  change Except.ok (p.x * p.x / (radii.x * radii.x) + p.y * p.y / (radii.y * radii.y)) = _
  rw [checkOf, ← pow_two, ← pow_two, ← pow_two, ← pow_two, div_pow, div_pow]

noncomputable def offset (c : ℝ) (otherSide : Bool) : ℝ :=
  if otherSide then -√((1 - c) / c) else √((1 - c) / c)

/-- The centre in the frame of the ellipse. It is a fixed part of the way along the chord, turned
by a quarter and measured in the radii. -/
noncomputable def innerOf (radii p : Point ℝ) (otherSide : Bool) : Point ℝ :=
  ⟨offset (checkOf radii p) otherSide * (radii.x * p.y / radii.y),
    -(offset (checkOf radii p) otherSide * (radii.y * p.x / radii.x))⟩

theorem innerCenter_real (hx : radii.x ≠ 0) (hy : radii.y ≠ 0) (hp : p ≠ ⟨0, 0⟩)
    (hc : checkOf radii p ≤ 1) (otherSide : Bool) :
    innerCenter radii p otherSide = .ok (innerOf radii p otherSide) := by
  have hpos := checkOf_pos hx hy hp
  have hspread : radii.x ^ 2 * radii.y ^ 2 * checkOf radii p ≠ 0 := by positivity
  have hsquare : (radii.x * radii.x * (radii.y * radii.y) -
      radii.x ^ 2 * radii.y ^ 2 * checkOf radii p) /
      (radii.x ^ 2 * radii.y ^ 2 * checkOf radii p) =
      (1 - checkOf radii p) / checkOf radii p := by
    field_simp
  have hnonneg : 0 ≤ (1 - checkOf radii p) / checkOf radii p :=
    div_nonneg (by linarith) hpos.le
  have hdown : (Point.upward radii.y * Point.ofReal p.x).divBy radii.x =
      .ok ⟨0, radii.y * p.x / radii.x⟩ := by
    rw [Point.divBy_real _ hx]
    simp
  rw [innerCenter]
  simp only [spread_eq hx hy, real_divide _ hspread, real_divide _ hy, hdown, hsquare]
  change Except.ok (Point.ofReal (if otherSide = true then
    -sqrt (atLeastZero ((1 - checkOf radii p) / checkOf radii p)) else
    sqrt (atLeastZero ((1 - checkOf radii p) / checkOf radii p))) *
    (Point.ofReal (radii.x * p.y / radii.y) - ⟨0, radii.y * p.x / radii.x⟩)) = _
  rw [real_atLeastZero, max_eq_left hnonneg, innerOf]
  congr 1
  ext <;> simp [offset]

noncomputable def factorOf (radii p : Point ℝ) : ℝ :=
  if checkOf radii p ≤ 1 then 1 else √(checkOf radii p)

noncomputable def fitted (radii p : Point ℝ) : Point ℝ :=
  ⟨radii.x * factorOf radii p, radii.y * factorOf radii p⟩

theorem factorOf_pos (radii p : Point ℝ) : 0 < factorOf radii p := by
  rw [factorOf]
  by_cases hc : checkOf radii p ≤ 1
  · rw [if_pos hc]
    exact one_pos
  · rw [if_neg hc, Real.sqrt_pos]
    linarith

theorem checkOf_fitted (radii p : Point ℝ) :
    checkOf (fitted radii p) p = min (checkOf radii p) 1 := by
  have hf := (factorOf_pos radii p).ne'
  have hdiv : checkOf (fitted radii p) p = checkOf radii p / factorOf radii p ^ 2 := by
    rw [fitted, checkOf, checkOf, ← div_div, ← div_div, div_pow _ (factorOf radii p),
      div_pow _ (factorOf radii p), add_div]
  rw [hdiv, factorOf]
  by_cases hc : checkOf radii p ≤ 1
  · rw [if_pos hc, min_eq_left hc, one_pow, div_one]
  · have hpos : 0 < checkOf radii p := by linarith
    rw [if_neg hc, min_eq_right (not_le.mp hc).le, Real.sq_sqrt hpos.le, div_self hpos.ne']

theorem fit_ok (hx : radii.x ≠ 0) (hy : radii.y ≠ 0) (hp : p ≠ ⟨0, 0⟩) {autoscale : Bool}
    (h : autoscale = true ∨ checkOf radii p ≤ 1) (otherSide : Bool) :
    fit radii p otherSide autoscale =
      .ok (fitted radii p, innerOf (fitted radii p) p otherSide) := by
  rw [fit, excess_real hx hy]
  change (if blt (whole 1) (checkOf radii p) = true then _ else
    innerCenter radii p otherSide >>= fun inner => pure (radii, inner)) = _
  by_cases hc : checkOf radii p ≤ 1
  · have hfitted : fitted radii p = radii := by
      rw [fitted, factorOf, if_pos hc, mul_one, mul_one]
    rw [if_neg (by simpa using hc), innerCenter_real hx hy hp hc, hfitted]
    rfl
  · have hinner : innerOf (fitted radii p) p otherSide = ⟨0, 0⟩ := by
      rw [innerOf, checkOf_fitted, min_eq_right (not_le.mp hc).le]
      simp [offset]
    rw [if_pos (by simpa using hc), if_pos (h.resolve_right hc), hinner, Point.zero_real, fitted,
      factorOf, if_neg hc]
    rfl

theorem fit_refused (hx : radii.x ≠ 0) (hy : radii.y ≠ 0) (hc : 1 < checkOf radii p)
    (otherSide : Bool) : fit radii p otherSide false = .error .noSuchArc := by
  have hblt : blt (whole 1) (checkOf radii p) = true := by simpa using hc
  rw [fit, excess_real hx hy]
  change (if blt (whole 1) (checkOf radii p) = true then _ else _) = _
  rw [if_pos hblt]
  rfl

end Fitting

section Seeing

variable {a b o c θ : ℝ} {radii p : Point ℝ}

/-- Seen from the centre in units of the radii, the ends of half a chord `(a, b)` and of its
opposite are unit vectors, and their products tell on which side the centre lies. -/
theorem ends_unit (hc : a ^ 2 + b ^ 2 = c) (ho : (1 + o ^ 2) * c = 1) :
    (a - o * b) ^ 2 + (b + o * a) ^ 2 = 1 ∧ (-a - o * b) ^ 2 + (-b + o * a) ^ 2 = 1 ∧
      (a - o * b) * (-a - o * b) + (b + o * a) * (-b + o * a) = 1 - 2 * c ∧
      (a - o * b) * (-b + o * a) - (b + o * a) * (-a - o * b) = 2 * o * c := by
  subst hc
  refine ⟨?_, ?_, ?_, ?_⟩
  · linear_combination ho
  · linear_combination ho
  · linear_combination ho
  · ring

theorem offset_sq (hpos : 0 < c) (hc : c ≤ 1) (otherSide : Bool) :
    (1 + offset c otherSide ^ 2) * c = 1 := by
  have hnonneg : 0 ≤ (1 - c) / c := div_nonneg (by linarith) hpos.le
  have hsq : offset c otherSide ^ 2 = (1 - c) / c := by
    cases otherSide <;> simp [offset, Real.sq_sqrt hnonneg]
  rw [hsq]
  field_simp
  ring

theorem offset_neg_iff (hpos : 0 < c) (hc : c < 1) (otherSide : Bool) :
    (offset c otherSide < 0 ↔ otherSide = true) ∧ (0 < offset c otherSide ↔ otherSide = false) := by
  have hroot : 0 < √((1 - c) / c) := Real.sqrt_pos.mpr (div_pos (by linarith) hpos)
  cases otherSide <;> simp [offset, hroot, hroot.le]

noncomputable def seen (radii p : Point ℝ) (otherSide : Bool) (q : Point ℝ) : Point ℝ :=
  ⟨q.x / radii.x - offset (checkOf radii p) otherSide * (p.y / radii.y),
    q.y / radii.y + offset (checkOf radii p) otherSide * (p.x / radii.x)⟩

theorem inRadii_innerOf {radii : Point ℝ} (hx : radii.x ≠ 0) (hy : radii.y ≠ 0) (p q : Point ℝ)
    (otherSide : Bool) :
    inRadii radii (innerOf radii p otherSide) q = .ok (seen radii p otherSide q) := by
  rw [inRadii, real_divide _ hx, real_divide _ hy, ok_bind, ok_bind, innerOf, seen]
  change Except.ok _ = _
  congr 2 <;> field_simp
  ring

theorem pointAt_of_seen {radii : Point ℝ} (hx : radii.x ≠ 0) (hy : radii.y ≠ 0) (p q m : Point ℝ)
    (otherSide : Bool) (turn : ℝ) {θ : ℝ}
    (hc : Real.cos θ = (seen radii p otherSide q).x)
    (hs : Real.sin θ = (seen radii p otherSide q).y) :
    (⟨Point.onUnitCircle turn * innerOf radii p otherSide + m, radii, turn⟩ : Ellipse ℝ).pointAt θ =
      .ok (Point.onUnitCircle turn * q + m) := by
  have hq : (⟨radii.x * Real.cos θ, radii.y * Real.sin θ⟩ : Point ℝ) + innerOf radii p otherSide =
      q := by
    rw [hc, hs, seen, innerOf]
    ext
    · simp only [Point.add_x]
      field_simp
      ring
    · simp only [Point.add_y]
      field_simp
      ring
  rw [Ellipse.pointAt_real]
  congr 1
  rw [← hq]
  ext
  · simp only [Point.add_x, Point.mul_x, Point.add_y]
    ring
  · simp only [Point.add_x, Point.mul_y, Point.add_y]
    ring

theorem seen_products {radii p : Point ℝ} (hx : radii.x ≠ 0) (hy : radii.y ≠ 0) (hp : p ≠ ⟨0, 0⟩)
    (hc : checkOf radii p ≤ 1) (otherSide : Bool) :
    let u := seen radii p otherSide p
    let v := seen radii p otherSide ⟨-p.x, -p.y⟩
    u.x ^ 2 + u.y ^ 2 = 1 ∧ v.x ^ 2 + v.y ^ 2 = 1 ∧
      u.x * v.x + u.y * v.y = 1 - 2 * checkOf radii p ∧
      u.x * v.y - u.y * v.x = 2 * offset (checkOf radii p) otherSide * checkOf radii p := by
  have hends := ends_unit (a := p.x / radii.x) (b := p.y / radii.y) (c := checkOf radii p) rfl
    (offset_sq (checkOf_pos hx hy hp) hc otherSide)
  simpa only [seen, neg_div] using hends

end Seeing

end Linework.EndpointArc
