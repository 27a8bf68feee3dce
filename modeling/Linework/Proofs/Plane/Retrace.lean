import Linework.Proofs.Plane.EndpointArc
import Linework.Proofs.Plane.OvalPieces

/-!
# An oval retraced

An oval is taken apart into pieces between points, and each piece gives an arc of an ellipse again.
Computed exactly these are arcs of the very ellipse that the oval is a part of, one after the
other, and together they sweep what the oval sweeps. About the angle `m` half way along a piece
half the chord is seen at the angles `m - h` and `m + h`, and everything is read off `h`.
-/

set_option autoImplicit false

namespace Linework

open Scalar

namespace Ellipse

/-- Arcs of an ellipse that follow one another from an angle on: each one begins where the last
one has ended, and its own start angle designates that point. -/
def Traced (e : Ellipse ℝ) : ℝ → List (Arc ℝ) → Prop
  | _, [] => True
  | θ, a :: rest => a.ellipse = e ∧ e.pointAt θ = .ok a.start ∧
      e.pointAt a.startAngle = .ok a.start ∧ e.pointAt (θ + a.sweep) = .ok a.finish ∧
      e.Traced (θ + a.sweep) rest

end Ellipse

def EndpointArc.toArcs {α : Type} [Scalar α] (autoscale : Bool) :
    Point α → List (EndpointArc α) → Except Fault (List (Arc α))
  | _, [] => .ok []
  | start, request :: rest => do
    let arc ← request.toArc start autoscale
    let arcs ← toArcs autoscale request.finish rest
    return arc :: arcs

namespace EndpointArc

noncomputable def about (e : Ellipse ℝ) (m h : ℝ) (large : Bool) : EndpointArc ℝ :=
  ⟨e.radii, toDegrees e.rotation, large, blt (whole 0) h, e.point (m + h)⟩

section About

variable {e : Ellipse ℝ} {m h : ℝ} {large : Bool}

theorem turn_about : (about e m h large).turn = e.rotation := by
  have hturn : (about e m h large).turn = ofDegrees (toDegrees e.rotation) := by
    simp [turn, about, ofDegrees]
  rw [hturn, real_ofDegrees_toDegrees]

theorem halfChord_about : (about e m h large).halfChord (e.point (m - h)) =
    ⟨e.radii.x * (Real.sin m * Real.sin h), -(e.radii.y * (Real.cos m * Real.sin h))⟩ := by
  have hsq := Real.sin_sq_add_cos_sq e.rotation
  rw [halfChord, turn_about]
  simp only [about, Ellipse.point, Point.onUnitCircle_real, Point.add_x, Point.add_y, Point.mul_x,
    Point.mul_y, Real.cos_add, Real.sin_add, Real.cos_sub, Real.sin_sub]
  ext
  · linear_combination e.radii.x * (Real.sin m * Real.sin h) * hsq
  · linear_combination -(e.radii.y * (Real.cos m * Real.sin h)) * hsq

theorem middle_about : (about e m h large).middle (e.point (m - h)) =
    Point.onUnitCircle e.rotation * ⟨e.radii.x * (Real.cos m * Real.cos h),
      e.radii.y * (Real.sin m * Real.cos h)⟩ + e.center := by
  rw [middle]
  simp only [about, Ellipse.point, Point.onUnitCircle_real]
  ext <;>
    simp only [Point.add_x, Point.add_y, Point.mul_x, Point.mul_y, Real.cos_add, Real.sin_add,
      Real.cos_sub, Real.sin_sub] <;>
    ring

theorem checkOf_about (hx : e.radii.x ≠ 0) (hy : e.radii.y ≠ 0) :
    checkOf e.radii ((about e m h large).halfChord (e.point (m - h))) = Real.sin h ^ 2 := by
  have hsq := Real.sin_sq_add_cos_sq m
  rw [halfChord_about, checkOf, mul_div_cancel_left₀ _ hx, neg_div, mul_div_cancel_left₀ _ hy]
  linear_combination Real.sin h ^ 2 * hsq

variable (hx : 0 < e.radii.x) (hy : 0 < e.radii.y)

include hx hy

theorem fitted_about :
    fitted (about e m h large).asked ((about e m h large).halfChord (e.point (m - h))) =
      e.radii := by
  have hasked : (about e m h large).asked = e.radii := by
    rw [asked]
    simp only [about, abs_of_pos hx, abs_of_pos hy]
  have hle : Real.sin h ^ 2 ≤ 1 := Real.sin_sq_le_one h
  rw [hasked, fitted, factorOf, checkOf_about hx.ne' hy.ne', if_pos hle, mul_one, mul_one]

theorem radiusCheck_about :
    (about e m h large).radiusCheck (e.point (m - h)) = Real.sin h ^ 2 :=
  checkOf_about hx.ne' hy.ne'

end About

theorem way_of_pos {h : ℝ} (hp : 0 < h) : blt (whole 0) h = true := by
  rw [real_blt, real_whole, Nat.cast_zero]
  exact hp

theorem way_of_neg {h : ℝ} (hn : h < 0) : blt (whole 0) h = false := by
  rw [← Bool.not_eq_true, real_blt, real_whole, Nat.cast_zero]
  exact hn.not_gt

theorem sqrt_sin_sq (h : ℝ) :
    √((1 - Real.sin h ^ 2) / Real.sin h ^ 2) = |Real.cos h / Real.sin h| := by
  have hsq : 1 - Real.sin h ^ 2 = Real.cos h ^ 2 := by linarith [Real.sin_sq_add_cos_sq h]
  rw [hsq, ← div_pow, Real.sqrt_sq_eq_abs]

/-- Half a sweep that is not zero, at most half a turn, with the flag of the larger arc. At half a
turn either flag will do. -/
structure IsHalf (h : ℝ) (large : Bool) : Prop where
  ne_zero : h ≠ 0
  lt_pi : |h| < Real.pi
  larger : large = true → Real.cos h ≤ 0
  smaller : large = false → 0 ≤ Real.cos h

namespace IsHalf

variable {e : Ellipse ℝ} {m h : ℝ} {large : Bool}

theorem sin_pos (hh : IsHalf h large) (hp : 0 < h) : 0 < Real.sin h :=
  Real.sin_pos_of_pos_of_lt_pi hp (abs_lt.mp hh.lt_pi).2

theorem sin_neg (hh : IsHalf h large) (hn : h < 0) : Real.sin h < 0 :=
  Real.sin_neg_of_neg_of_neg_pi_lt hn (abs_lt.mp hh.lt_pi).1

theorem sin_ne_zero (hh : IsHalf h large) : Real.sin h ≠ 0 := by
  rcases lt_or_gt_of_ne hh.ne_zero with hn | hp
  · exact (hh.sin_neg hn).ne
  · exact (hh.sin_pos hp).ne'

/-- The flags choose the side of the chord on which the centre is: the one that the cotangent of
the half sweep tells. -/
theorem offset_eq (hh : IsHalf h large) :
    offset (Real.sin h ^ 2) (large == blt (whole 0) h) = Real.cos h / Real.sin h := by
  rw [offset, sqrt_sin_sq]
  rcases lt_or_gt_of_ne hh.ne_zero with hn | hp
  · have hsin := hh.sin_neg hn
    rw [way_of_neg hn]
    cases large with
    | true =>
      rw [if_neg (by simp), abs_of_nonneg (div_nonneg_of_nonpos (hh.larger rfl) hsin.le)]
    | false =>
      rw [if_pos (by simp), neg_eq_iff_eq_neg,
        abs_of_nonpos (div_nonpos_of_nonneg_of_nonpos (hh.smaller rfl) hsin.le)]
  · have hsin := hh.sin_pos hp
    rw [way_of_pos hp]
    cases large with
    | true =>
      rw [if_pos (by simp), neg_eq_iff_eq_neg,
        abs_of_nonpos (div_nonpos_of_nonpos_of_nonneg (hh.larger rfl) hsin.le)]
    | false => rw [if_neg (by simp), abs_of_nonneg (div_nonneg (hh.smaller rfl) hsin.le)]

theorem directed_eq (hh : IsHalf h large) {least : ℝ} (hlow : -Real.pi < least)
    (hhigh : least ≤ Real.pi) (hcos : Real.cos least = Real.cos (2 * h))
    (hsin : Real.sin least = Real.sin (2 * h)) : directed (blt (whole 0) h) least = 2 * h := by
  have hne : least ≠ 0 := by
    rintro rfl
    have hsq := Real.sin_sq_add_cos_sq h
    rw [Real.cos_zero, Real.cos_two_mul] at hcos
    exact hh.sin_ne_zero (pow_eq_zero_iff two_ne_zero |>.mp (by linarith))
  obtain ⟨-, hturn, hway⟩ := directed_range (blt (whole 0) h) hne hlow hhigh
  have hbound := abs_lt.mp hh.lt_pi
  refine angle_eq_of_cos_sin ((cos_directed _ _).trans hcos) ((sin_directed _ _).trans hsin) ?_
  rw [abs_lt] at hturn ⊢
  rcases lt_or_gt_of_ne hh.ne_zero with hn | hp
  · rw [way_of_neg hn] at hturn hway ⊢
    have hle := not_lt.mp (hway.not.mpr Bool.false_ne_true)
    constructor <;> linarith
  · rw [way_of_pos hp] at hturn hway ⊢
    have hgt := hway.mpr rfl
    constructor <;> linarith

variable (hx : 0 < e.radii.x) (hy : 0 < e.radii.y)

include hx hy

theorem innerOf_about (hh : IsHalf h large) :
    innerOf e.radii ((about e m h large).halfChord (e.point (m - h)))
        (large == blt (whole 0) h) =
      ⟨-(e.radii.x * (Real.cos m * Real.cos h)), -(e.radii.y * (Real.sin m * Real.cos h))⟩ := by
  have hsin := hh.sin_ne_zero
  rw [innerOf, checkOf_about hx.ne' hy.ne', hh.offset_eq, halfChord_about]
  ext <;> field_simp

theorem seen_about (hh : IsHalf h large) :
    seen e.radii ((about e m h large).halfChord (e.point (m - h))) (large == blt (whole 0) h)
        ((about e m h large).halfChord (e.point (m - h))) =
      ⟨Real.cos (m - h), Real.sin (m - h)⟩ := by
  have hsin := hh.sin_ne_zero
  rw [seen, checkOf_about hx.ne' hy.ne', hh.offset_eq, halfChord_about, Real.cos_sub, Real.sin_sub]
  ext
  · field_simp
    ring
  · field_simp
    ring

theorem ellipseFor_about (hh : IsHalf h large) :
    (about e m h large).ellipseFor (e.point (m - h)) = e := by
  have hsum := hh.innerOf_about (m := m) hx hy
  rw [ellipseFor, fitted_about hx hy, turn_about, middle_about]
  change (⟨Point.onUnitCircle e.rotation * innerOf e.radii _ (large == blt (whole 0) h) + _, _, _⟩ :
    Ellipse ℝ) = e
  rw [hsum]
  have hcenter : Point.onUnitCircle e.rotation *
      ⟨-(e.radii.x * (Real.cos m * Real.cos h)), -(e.radii.y * (Real.sin m * Real.cos h))⟩ +
      (Point.onUnitCircle e.rotation * ⟨e.radii.x * (Real.cos m * Real.cos h),
        e.radii.y * (Real.sin m * Real.cos h)⟩ + e.center) = e.center := by
    ext <;> simp only [Point.add_x, Point.add_y, Point.mul_x, Point.mul_y] <;> ring
  rw [hcenter]

theorem point_ne (hh : IsHalf h large) : e.point (m - h) ≠ e.point (m + h) := by
  intro heq
  have hcheck : checkOf e.radii ((about e m h large).halfChord (e.point (m - h))) =
      Real.sin h ^ 2 := checkOf_about hx.ne' hy.ne'
  have hzero : (about e m h large).halfChord (e.point (m - h)) = ⟨0, 0⟩ := by
    simp [halfChord, about, heq]
  rw [hzero] at hcheck
  exact hh.sin_ne_zero (pow_eq_zero_iff two_ne_zero |>.mp (by simpa [checkOf] using hcheck.symm))

theorem toArc_about (hh : IsHalf h large) (autoscale : Bool) :
    ∃ first, (about e m h large).toArc (e.point (m - h)) autoscale =
        .ok ⟨e, first, 2 * h, e.point (m - h), e.point (m + h)⟩ ∧
      e.pointAt first = .ok (e.point (m - h)) := by
  have hends : e.point (m - h) ≠ (about e m h large).finish := hh.point_ne hx hy
  have hfit : autoscale = true ∨ (about e m h large).radiusCheck (e.point (m - h)) ≤ 1 :=
    .inr ((radiusCheck_about hx hy).trans_le (Real.sin_sq_le_one h))
  obtain ⟨first, least, ha, harc⟩ := toArc_of_fit hends hx.ne' hy.ne' hfit
  rw [fitted_about hx hy] at ha
  obtain ⟨hcos, hsin⟩ := ha.begins
  have hleast : directed (blt (whole 0) h) least = 2 * h := by
    have hsq := Real.sin_sq_add_cos_sq h
    have hne := hh.sin_ne_zero
    refine hh.directed_eq ha.least_range.1 ha.least_range.2 ?_ ?_
    · rw [ha.cos_least, checkOf_about hx.ne' hy.ne', Real.cos_two_mul]
      linarith
    · rw [ha.sin_least, checkOf_about hx.ne' hy.ne', Real.sin_two_mul]
      change 2 * offset (Real.sin h ^ 2) (large == blt (whole 0) h) * _ = _
      rw [hh.offset_eq]
      field_simp
  have hseen := hh.seen_about (m := m) hx hy
  refine ⟨first, ?_, ?_⟩
  · rw [harc, hh.ellipseFor_about hx hy]
    change Except.ok (⟨e, first, directed (blt (whole 0) h) least, _, _⟩ : Arc ℝ) = _
    rw [hleast]
    rfl
  · rw [e.pointAt_point, e.point_congr (hcos.trans (congrArg Point.x hseen))
      (hsin.trans (congrArg Point.y hseen))]

end IsHalf

theorem isHalf_of_sweep {δ : ℝ} (h0 : δ ≠ 0) (h : |δ| < 2 * Real.pi) :
    IsHalf (δ / 2) (blt Real.pi |δ|) := by
  have habs : |δ / 2| = |δ| / 2 := by rw [abs_div, abs_two]
  have hcos : Real.cos (δ / 2) = Real.cos (|δ| / 2) := by rw [← Real.cos_abs, habs]
  have hnonneg := abs_nonneg δ
  refine ⟨div_ne_zero h0 two_ne_zero, by rw [habs]; linarith, fun hl => ?_, fun hl => ?_⟩
  · rw [real_blt] at hl
    rw [hcos]
    exact Real.cos_nonpos_of_pi_div_two_le_of_le (by linarith) (by linarith)
  · rw [← Bool.not_eq_true, real_blt, not_lt] at hl
    rw [hcos]
    exact Real.cos_nonneg_of_neg_pi_div_two_le_of_le (by linarith) (by linarith)

theorem isHalf_of_half_turn {h : ℝ} (hh : |h| = Real.pi / 2) : IsHalf h false := by
  have hpi := Real.pi_pos
  have hcos : Real.cos h = 0 := by rw [← Real.cos_abs, hh, Real.cos_pi_div_two]
  refine ⟨?_, by linarith, by simp, fun _ => hcos.ge⟩
  rintro rfl
  rw [abs_zero] at hh
  linarith

end EndpointArc

namespace Oval

open EndpointArc

section Pieces

variable {o : Oval ℝ} (hx : 0 < o.ellipse.radii.x) (hy : 0 < o.ellipse.radii.y)

theorem piece_eq_about {k h : ℝ} (hk : 0 < k) (hsweep : o.sweep = k * h) (large : Bool) (θ : ℝ) :
    o.piece large (o.ellipse.point (θ + 2 * h)) = about o.ellipse (θ + h) h large := by
  have hway : blt (whole 0) o.sweep = blt (whole 0) h := by
    rw [hsweep, Bool.eq_iff_iff, real_blt, real_blt, real_whole, Nat.cast_zero,
      mul_pos_iff_of_pos_left hk]
  have hend : θ + 2 * h = θ + h + h := by ring
  rw [piece, about, hway, hend]

theorem point_add_sweep (hfull : |o.sweep| = 2 * Real.pi) (θ : ℝ) :
    o.ellipse.point (θ + o.sweep) = o.ellipse.point θ := by
  rcases abs_choice o.sweep with hs | hs
  · rw [← hs, hfull]
    exact o.ellipse.point_congr (Real.cos_add_two_pi θ) (Real.sin_add_two_pi θ)
  · rw [← neg_neg o.sweep, ← hs, hfull, ← sub_eq_add_neg]
    exact o.ellipse.point_congr (Real.cos_sub_two_pi θ) (Real.sin_sub_two_pi θ)

include hx hy

theorem toArc_piece {k h : ℝ} {large : Bool} (hk : 0 < k) (hsweep : o.sweep = k * h)
    (hh : IsHalf h large) (autoscale : Bool) (θ : ℝ) :
    ∃ first, (o.piece large (o.ellipse.point (θ + 2 * h))).toArc (o.ellipse.point θ) autoscale =
        .ok ⟨o.ellipse, first, 2 * h, o.ellipse.point θ, o.ellipse.point (θ + 2 * h)⟩ ∧
      o.ellipse.pointAt first = .ok (o.ellipse.point θ) := by
  have hstart : θ + h - h = θ := by ring
  have hend : θ + h + h = θ + 2 * h := by ring
  obtain ⟨first, harc, hfirst⟩ := hh.toArc_about (m := θ + h) hx hy autoscale
  rw [hstart, hend] at harc
  rw [hstart] at hfirst
  rw [piece_eq_about hk hsweep]
  exact ⟨first, harc, hfirst⟩

/-- What it means that the pieces of an oval give the oval again. -/
structure Retraced (o : Oval ℝ) (autoscale : Bool) (start : Point ℝ)
    (pieces : List (EndpointArc ℝ)) (arcs : List (Arc ℝ)) : Prop where
  pieces_eq : o.pieces = .ok (start, pieces)
  arcs_eq : toArcs autoscale start pieces = .ok arcs
  traced : o.ellipse.Traced o.startAngle arcs
  sweep : (arcs.map Arc.sweep).sum = o.sweep
  ends : ∃ last, pieces.getLast? = some last ∧
    o.ellipse.pointAt (o.startAngle + o.sweep) = .ok last.finish

theorem retraced_one (h0 : o.sweep ≠ 0) (hlt : |o.sweep| < 2 * Real.pi)
    (hturn : ¬ isClose |o.sweep| fullTurn = true) (autoscale : Bool) :
    ∃ start pieces arcs, o.Retraced autoscale start pieces arcs := by
  have hsweep : o.sweep = 2 * (o.sweep / 2) := by ring
  obtain ⟨first, harc, hfirst⟩ := toArc_piece hx hy two_pos hsweep
    (isHalf_of_sweep h0 hlt) autoscale o.startAngle
  rw [← hsweep] at harc
  refine ⟨_, _, _,
    { pieces_eq := pieces_one (o.ellipse.pointAt_point _) (o.ellipse.pointAt_point _) h0 hturn
      arcs_eq := by
        rw [toArcs, harc, ok_bind, toArcs]
        rfl
      traced := by
        exact ⟨rfl, o.ellipse.pointAt_point _, hfirst, o.ellipse.pointAt_point _, trivial⟩
      sweep := by simp
      ends := ⟨_, rfl, o.ellipse.pointAt_point _⟩ }⟩

theorem retraced_two (hfull : |o.sweep| = 2 * Real.pi) (autoscale : Bool) :
    ∃ start pieces arcs, o.Retraced autoscale start pieces arcs := by
  have hpi := Real.pi_pos
  have hsweep : o.sweep = 4 * (o.sweep / 4) := by ring
  have hhalf : o.sweep / 2 = 2 * (o.sweep / 4) := by ring
  have hquarter : |o.sweep / 4| = Real.pi / 2 := by
    rw [abs_div, hfull, abs_of_pos (by norm_num : (0 : ℝ) < 4)]
    ring
  have h0 : o.sweep ≠ 0 := by
    rw [← abs_pos, hfull]
    linarith
  have hturn : isClose |o.sweep| fullTurn = true := by
    rw [real_isClose, real_fullTurn, hfull, sub_self, abs_zero]
    positivity
  have hpiece := toArc_piece hx hy four_pos hsweep (isHalf_of_half_turn hquarter) autoscale
  rw [← hhalf] at hpiece
  obtain ⟨first, harc, hfirst⟩ := hpiece o.startAngle
  obtain ⟨second, harc', hsecond⟩ := hpiece (o.startAngle + o.sweep / 2)
  rw [add_assoc, add_halves, point_add_sweep hfull] at harc'
  have hend : o.ellipse.pointAt (o.startAngle + o.sweep) = .ok (o.ellipse.point o.startAngle) := by
    rw [o.ellipse.pointAt_point, point_add_sweep hfull]
  refine ⟨_, _, _,
    { pieces_eq := pieces_two (o.ellipse.pointAt_point _) (o.ellipse.pointAt_point _) h0 hturn
        (o.ellipse.pointAt_point _)
      arcs_eq := by
        rw [toArcs, harc, ok_bind, toArcs]
        change ((o.piece false _).toArc (o.ellipse.point _) autoscale >>= _) >>= _ = _
        rw [harc', ok_bind, toArcs]
        rfl
      traced := by
        refine ⟨rfl, o.ellipse.pointAt_point _, hfirst, o.ellipse.pointAt_point _, rfl,
          o.ellipse.pointAt_point _, hsecond, ?_, trivial⟩
        rwa [add_assoc, add_halves]
      sweep := by simp
      ends := ⟨_, rfl, hend⟩ }⟩

end Pieces

/-- An oval that sweeps something, and whose sweep is a full turn exactly if it counts as one, is
retraced by its pieces, whether radii may be scaled or not. -/
theorem pieces_retraced (o : Oval ℝ) (autoscale : Bool) (hx : 0 < o.ellipse.radii.x)
    (hy : 0 < o.ellipse.radii.y) (h0 : o.sweep ≠ 0)
    (hturn : |o.sweep| = fullTurn ∨ ¬ isClose |o.sweep| fullTurn = true) :
    ∃ start pieces arcs, o.Retraced autoscale start pieces arcs := by
  by_cases hfull : |o.sweep| = 2 * Real.pi
  · exact retraced_two hx hy hfull autoscale
  · have hlt := lt_of_le_of_ne (abs_sweepBetween_le o.startAngle o.endAngle o.anticlockwise) hfull
    rw [← real_fullTurn] at hfull
    exact retraced_one hx hy h0 hlt (hturn.resolve_left hfull) autoscale

theorem pieces_retraced_full_turn :
    let o : Oval ℝ := ⟨⟨⟨3, 4⟩, ⟨2, 1⟩, 1⟩, 0, fullTurn, false⟩
    |o.sweep| = fullTurn ∧ ∃ start pieces arcs, o.Retraced false start pieces arcs := by
  intro o
  have hpi : (0 : ℝ) < fullTurn := by
    rw [real_fullTurn]
    exact Real.two_pi_pos
  have hsweep : o.sweep = fullTurn := by simp [sweep, sweepBetween, o]
  have habs : |o.sweep| = fullTurn := by rw [hsweep, abs_of_pos hpi]
  exact ⟨habs, o.pieces_retraced false (by norm_num [o]) (by norm_num [o])
    (by rw [hsweep]; exact hpi.ne') (.inl habs)⟩

end Oval

end Linework
