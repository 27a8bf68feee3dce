import Linework.Proofs.Plane.Flat
import Linework.Proofs.Sheet.Ovals

/-!
# Flat ovals on a sheet

Under a transform with a singular linear part an oval is drawn as straight lines between the images
of the ends of its pieces. These cover the image of the oval exactly if a point that runs along it
does not turn back on the way, except in the middle of a full turn: at every other place where it
turns back the image reaches further than the lines.
-/

set_option autoImplicit false

namespace Linework

open Scalar Set

theorem Affine.isNearlyShift_of_singular {m : Affine ℝ} (h : m.a * m.d = m.b * m.c) :
    m.isNearlyShift = false := by
  rw [← Bool.not_eq_true, isNearlyShift]
  simp only [Bool.and_eq_true, real_ble, real_magnitude, real_place, real_whole, Nat.cast_one]
  rintro ⟨⟨⟨ha, hb⟩, hc⟩, hd⟩
  have hfar : 1 / 2 * (1 / 2) ≤ m.a * m.d := by
    have ha' := (abs_le.mp ha).1
    have hd' := (abs_le.mp hd).1
    apply mul_le_mul <;> linarith
  have hnear : m.b * m.c ≤ 1 / 10 ^ 8 * (1 / 10 ^ 8) := by
    refine (le_abs_self _).trans ?_
    rw [abs_mul]
    exact mul_le_mul hb hc (abs_nonneg _) (by positivity)
  linarith

namespace Oval

variable {o : Oval ℝ}

theorem pi_lt_of_isClose (hturn : isClose |o.sweep| fullTurn = true) : Real.pi < |o.sweep| := by
  rcases o.abs_sweep_le.lt_or_eq with hlt | heq
  · have := (isClose_fullTurn hlt).mp hturn
    linarith [turnTolerance_lt_pi]
  · linarith [Real.pi_pos]

end Oval

namespace Sheet

section Drawing

variable [HasAxes ℝ]

/-- What it means that an oval is drawn flat: from the image of its start on there is a line to the
image of the end of each of its pieces. -/
structure DrawsLines (s t : Sheet ℝ) (o : Oval ℝ) (ends : List (Point ℝ)) : Prop where
  pieces_eq : ∃ pieces, o.pieces = .ok (o.ellipse.point o.startAngle, pieces) ∧
    ends = pieces.map fun piece => s.map piece.finish
  run_eq : (Surface.perform (Call.oval o) : Act (Sheet ℝ) _).run s = (.ok [], t)
  parts_eq : ∃ j, (joinTo (s.map (o.ellipse.point o.startAngle))).run s = (.ok (), j) ∧
    j.current = some (s.map (o.ellipse.point o.startAngle)) ∧ t.parts = j.parts ++ ends.map .line

variable {s : Sheet ℝ} {o : Oval ℝ}

theorem exists_drawsLines {pieces : List (EndpointArc ℝ)}
    (hpieces : o.pieces = .ok (o.ellipse.point o.startAngle, pieces))
    (hsingular : s.transform.a * s.transform.d = s.transform.b * s.transform.c)
    (haxes : IsAxes (s.transform.onAxes o.ellipse.radii o.ellipse.rotation)
      (HasAxes.axes (s.transform.onAxes o.ellipse.radii o.ellipse.rotation))) :
    ∃ t, s.DrawsLines t o (pieces.map fun piece => s.map piece.finish) := by
  have hminor := (Affine.minor_eq_zero hsingular haxes).trans_le (Affine.place_pos 8).le
  have himage := Affine.ellipseImage?_of_flat (Affine.isNearlyShift_of_singular hsingular) hminor
  obtain ⟨j, t, hjoin, hcurrent, hrun, hparts⟩ := s.exists_run_oval hpieces himage
  refine ⟨t, ⟨pieces, hpieces, rfl⟩, hrun, j, hjoin, hcurrent, ?_⟩
  rw [hparts, List.map_map]
  rfl

/-- Under a transform with a singular linear part the lines that are drawn for an oval cover its
image exactly if the image is one point, or a point that runs along the oval turns back nowhere on
the way but in the middle of what counts as a full turn. -/
theorem lines_cover_image_iff (s : Sheet ℝ) (o : Oval ℝ) (hx : 0 < o.ellipse.radii.x)
    (hy : 0 < o.ellipse.radii.y) (h0 : o.sweep ≠ 0)
    (hsingular : s.transform.a * s.transform.d = s.transform.b * s.transform.c)
    (haxes : IsAxes (s.transform.onAxes o.ellipse.radii o.ellipse.rotation)
      (HasAxes.axes (s.transform.onAxes o.ellipse.radii o.ellipse.rotation))) :
    ∃ t ends, s.DrawsLines t o ends ∧
      ((s.map (o.ellipse.point o.startAngle)).trail ends =
          s.map '' (o.ellipse.point '' uIcc o.startAngle (o.startAngle + o.sweep)) ↔
        s.transform.IsConstant ∨ ∀ θ ∈ uIoo o.startAngle (o.startAngle + o.sweep),
          s.transform.StillAt o.ellipse θ →
            isClose |o.sweep| fullTurn = true ∧ θ = o.startAngle + o.sweep / 2) := by
  obtain ⟨σ, c, hflat⟩ := Affine.exists_flattens hsingular haxes
  have hlength : |o.startAngle - (o.startAngle + o.sweep)| = |o.sweep| := by
    rw [sub_add_cancel_left, abs_neg]
  rw [← hflat.isConstant_iff hx hy]
  by_cases hturn : isClose |o.sweep| fullTurn = true
  · -- there are two pieces, and the lines go to the middle and back
    have hmiddle : o.startAngle + o.sweep / 2 = (o.startAngle + (o.startAngle + o.sweep)) / 2 := by
      ring
    obtain ⟨t, hdraws⟩ := exists_drawsLines (Oval.pieces_two (o.ellipse.pointAt_point _)
      (o.ellipse.pointAt_point _) h0 hturn (o.ellipse.pointAt_point _)) hsingular haxes
    refine ⟨t, _, hdraws, ?_⟩
    have hcovers := hflat.covers_middle_iff (hlength ▸ Oval.pi_lt_of_isClose hturn)
      (hlength ▸ o.abs_sweep_le)
    simp only [hturn, true_and, hmiddle]
    exact Point.trail_back ▸ hcovers
  · obtain ⟨t, hdraws⟩ := exists_drawsLines (Oval.pieces_one (o.ellipse.pointAt_point _)
      (o.ellipse.pointAt_point _) h0 hturn) hsingular haxes
    refine ⟨t, _, hdraws, ?_⟩
    have hcovers := hflat.covers_ends_iff (hlength ▸ o.abs_sweep_le)
    simp only [hturn, Bool.false_eq_true, false_and, imp_false]
    exact Point.trail_one ▸ hcovers

end Drawing

section Projection

def projection : Affine ℝ := ⟨1, 0, 0, 0, 0, 0⟩

theorem projection_singular : projection.a * projection.d = projection.b * projection.c := by
  norm_num [projection]

noncomputable def halfCircle (r θ : ℝ) : Oval ℝ :=
  ⟨⟨⟨0, 0⟩, ⟨r, r⟩, 0⟩, θ, θ + Real.pi, false⟩

theorem sweep_halfCircle (r θ : ℝ) : (halfCircle r θ).sweep = Real.pi := by
  have hpi := Real.pi_pos
  have hway : blt Real.pi (whole 0) = false := by
    rw [← Bool.not_eq_true, real_blt, real_whole, Nat.cast_zero]
    exact hpi.not_gt
  have hadd := sweepBetween_add θ (δ := Real.pi) (by rw [abs_of_pos hpi]; linarith)
  rw [hway] at hadd
  exact hadd

theorem apply_projection (r θ φ : ℝ) :
    projection.apply ((halfCircle r θ).ellipse.point φ) = ⟨r * Real.cos φ, 0⟩ := by
  rw [Ellipse.point, Point.onUnitCircle_real, projection, Affine.apply, halfCircle]
  simp

theorem lines_cover_upper_half :
    letI := exactAxes
    let s : Sheet ℝ := { Sheet.default "drawing.svg" with transform := projection }
    (halfCircle 10 0).sweep ≠ 0 ∧ projection.a * projection.d = projection.b * projection.c ∧
      ∃ t ends, s.DrawsLines t (halfCircle 10 0) ends ∧
        (s.map ((halfCircle 10 0).ellipse.point 0)).trail ends =
          s.map '' ((halfCircle 10 0).ellipse.point '' uIcc 0 Real.pi) := by
  let _ : HasAxes ℝ := exactAxes
  intro s
  have hsweep : (halfCircle 10 0).sweep ≠ 0 := by
    rw [sweep_halfCircle]
    exact Real.pi_ne_zero
  have hten : (0 : ℝ) < 10 := by norm_num
  obtain ⟨t, ends, hdraws, hcovers⟩ :=
    s.lines_cover_image_iff (halfCircle 10 0) hten hten hsweep projection_singular
      (isAxes_exactAxes _)
  have hfinish : (halfCircle 10 0).startAngle + (halfCircle 10 0).sweep = Real.pi := by
    rw [sweep_halfCircle]
    exact zero_add _
  rw [hfinish] at hcovers
  refine ⟨hsweep, projection_singular, t, ends, hdraws, hcovers.mpr (.inr fun θ hθ hstill => ?_)⟩
  -- there the sine is positive
  have hzero : 10 * Real.cos (θ + Real.pi / 2) = 0 := by
    have happly : projection.apply
        ((halfCircle 10 0).ellipse.velocity θ + (halfCircle 10 0).ellipse.center) =
      projection.apply (halfCircle 10 0).ellipse.center := hstill
    rw [Ellipse.velocity_add_center, apply_projection] at happly
    simpa [projection, Affine.apply, halfCircle] using congrArg Point.x happly
  rw [Real.cos_add_pi_div_two] at hzero
  have hpos := Real.sin_pos_of_mem_Ioo (uIoo_of_le Real.pi_pos.le ▸ hθ : θ ∈ Ioo 0 Real.pi)
  linarith

theorem lines_miss_right_half :
    letI := exactAxes
    let s : Sheet ℝ := { Sheet.default "drawing.svg" with transform := projection }
    let o := halfCircle 10 (-(Real.pi / 2))
    o.sweep ≠ 0 ∧ projection.a * projection.d = projection.b * projection.c ∧
      ∃ t ends, s.DrawsLines t o ends ∧
        (s.map (o.ellipse.point o.startAngle)).trail ends ≠
          s.map '' (o.ellipse.point '' uIcc o.startAngle (o.startAngle + o.sweep)) := by
  let _ : HasAxes ℝ := exactAxes
  intro s o
  have hpi := Real.pi_pos
  have hsweep : o.sweep = Real.pi := sweep_halfCircle _ _
  have hne : o.sweep ≠ 0 := hsweep ▸ Real.pi_ne_zero
  have hfinish : o.startAngle + o.sweep = Real.pi / 2 := by
    rw [hsweep]
    change -(Real.pi / 2) + Real.pi = _
    ring
  have hturn : ¬ isClose |o.sweep| fullTurn = true := fun hturn =>
    (Oval.pi_lt_of_isClose hturn).ne' (by rw [hsweep, abs_of_pos hpi])
  obtain ⟨t, hdraws⟩ := exists_drawsLines (s := s) (Oval.pieces_one (o.ellipse.pointAt_point _)
    (o.ellipse.pointAt_point _) hne hturn) projection_singular (isAxes_exactAxes _)
  refine ⟨hne, projection_singular, t, _, hdraws, fun hcovers => ?_⟩
  -- the line would have to pass the rightmost point
  have hright : s.map (o.ellipse.point 0) ∈ (s.map (o.ellipse.point o.startAngle)).trail
      [s.map (o.ellipse.point (o.startAngle + o.sweep))] := by
    refine hcovers ▸ ⟨_, ⟨0, ?_, rfl⟩, rfl⟩
    rw [hfinish]
    exact mem_uIcc_of_le (by change -(Real.pi / 2) ≤ 0; linarith) (by linarith)
  rw [Point.trail_one, hfinish] at hright
  obtain ⟨x, -, hx⟩ := hright
  have hfirst : s.map (o.ellipse.point o.startAngle) = ⟨0, 0⟩ := by
    refine (apply_projection _ _ _).trans ?_
    change (⟨10 * Real.cos (-(Real.pi / 2)), 0⟩ : Point ℝ) = _
    rw [Real.cos_neg, Real.cos_pi_div_two, mul_zero]
  have hlast : s.map (o.ellipse.point (Real.pi / 2)) = ⟨0, 0⟩ := by
    refine (apply_projection _ _ _).trans ?_
    rw [Real.cos_pi_div_two, mul_zero]
  have hmiddle : s.map (o.ellipse.point 0) = ⟨10, 0⟩ := by
    refine (apply_projection _ _ _).trans ?_
    rw [Real.cos_zero, mul_one]
  rw [hfirst, hlast, hmiddle, Point.mk.injEq] at hx
  norm_num at hx

end Projection

end Sheet

end Linework
