import Linework.Proofs.Plane.EndpointArc
import Linework.Proofs.Plane.OvalPieces
import Mathlib.Analysis.SpecialFunctions.Trigonometric.Bounds

/-!
# There and back between ends and centre

The arc that a request between two points gives covers part of an ellipse, and this part is taken
apart into pieces between points again. Computed exactly, the one piece is the request with the
radii that the arc has got. A large arc on a chord that is short for its radii counts as a full
turn, though: it comes back as two halves that lead to the start and not to the end.
-/

set_option autoImplicit false

namespace Linework

def Arc.toOval {α : Type} [Scalar α] (a : Arc α) : Oval α :=
  ⟨a.ellipse, a.startAngle, a.endAngle, a.anticlockwise⟩

namespace EndpointArc

open Scalar

variable {request : EndpointArc ℝ} {start : Point ℝ} {a : Arc ℝ}

theorem sweep_toOval (h : |a.sweep| < 2 * Real.pi) : a.toOval.sweep = a.sweep :=
  sweepBetween_add a.startAngle h

theorem piece_toOval (hj : request.Joins start a)
    (hrot : a.ellipse.rotation = ofDegrees request.rotation) (large : Bool) (finish : Point ℝ) :
    a.toOval.piece large finish =
      ⟨a.ellipse.radii, request.rotation, large, request.clockwise, finish⟩ := by
  have hrotation : toDegrees a.ellipse.rotation = request.rotation := by
    rw [hrot, real_toDegrees_ofDegrees]
  have hway : blt (whole 0) a.sweep = request.clockwise := by
    rw [Bool.eq_iff_iff, real_blt, real_whole, Nat.cast_zero, hj.direction]
  rw [Oval.piece, sweep_toOval hj.sweep.2, hway]
  change (⟨_, toDegrees a.ellipse.rotation, _, _, _⟩ : EndpointArc ℝ) = _
  rw [hrotation]
  rfl

theorem sweep_ne_zero (hj : request.Joins start a) : a.toOval.sweep ≠ 0 := by
  rw [sweep_toOval hj.sweep.2]
  exact abs_pos.mp hj.sweep.1

theorem toOval_ends (hj : request.Joins start a) :
    a.toOval.ellipse.pointAt (a.toOval.startAngle + a.toOval.sweep) = .ok request.finish := by
  rw [sweep_toOval hj.sweep.2]
  exact hj.ends

theorem pieces_of_far (hj : request.Joins start a)
    (hrot : a.ellipse.rotation = ofDegrees request.rotation)
    (hfar : turnTolerance ≤ 2 * Real.pi - |a.sweep|) :
    a.toOval.pieces = .ok (start, [⟨a.ellipse.radii, request.rotation,
      decide (Real.pi < |a.sweep|), request.clockwise, request.finish⟩]) := by
  have hturn : ¬ isClose |a.toOval.sweep| fullTurn = true := by
    rw [sweep_toOval hj.sweep.2, isClose_fullTurn hj.sweep.2]
    exact not_lt.mpr hfar
  have hlarge : blt Real.pi |a.sweep| = decide (Real.pi < |a.sweep|) := by
    rw [Bool.eq_iff_iff, real_blt, decide_eq_true_iff]
  rw [Oval.pieces_one (o := a.toOval) hj.begins (toOval_ends hj) (sweep_ne_zero hj) hturn,
    piece_toOval hj hrot, sweep_toOval hj.sweep.2, hlarge]

theorem pieces_of_near (hj : request.Joins start a)
    (hrot : a.ellipse.rotation = ofDegrees request.rotation)
    (hnear : 2 * Real.pi - |a.sweep| < turnTolerance) :
    ∃ middle, a.ellipse.pointAt (a.startAngle + a.sweep / 2) = .ok middle ∧
      a.toOval.pieces = .ok (start,
        [⟨a.ellipse.radii, request.rotation, false, request.clockwise, middle⟩,
          ⟨a.ellipse.radii, request.rotation, false, request.clockwise, start⟩]) := by
  have hturn : isClose |a.toOval.sweep| fullTurn = true := by
    rw [sweep_toOval hj.sweep.2, isClose_fullTurn hj.sweep.2]
    exact hnear
  have hmiddle := Ellipse.pointAt_real a.ellipse (a.startAngle + a.sweep / 2)
  refine ⟨_, hmiddle, ?_⟩
  rw [← sweep_toOval hj.sweep.2] at hmiddle
  rw [Oval.pieces_two (o := a.toOval) hj.begins (toOval_ends hj) (sweep_ne_zero hj) hturn hmiddle,
    piece_toOval hj hrot, piece_toOval hj hrot, sweep_toOval hj.sweep.2]

/-- A sweep is a full turn up to the tolerance on the larger arcs over chords that are short for
the radii, and on no others. -/
theorem near_fullTurn_iff (hj : request.Joins start a)
    (hcos : Real.cos a.sweep = 1 - 2 * min (request.radiusCheck start) 1) :
    2 * Real.pi - |a.sweep| < turnTolerance ↔
      request.large = true ∧
        Real.arccos (1 - 2 * request.radiusCheck start) < turnTolerance := by
  have htol := turnTolerance_lt_pi
  rcases le_or_gt 1 (request.radiusCheck start) with hc | hc
  · have harccos : Real.arccos (1 - 2 * request.radiusCheck start) = Real.pi :=
      Real.arccos_of_le_neg_one (by linarith)
    rw [hj.half hc, harccos]
    exact iff_of_false (by linarith) fun h => by linarith [h.2]
  · rw [← hj.large hc]
    rw [min_eq_left hc.le] at hcos
    by_cases hl : Real.pi < |a.sweep|
    · have harccos : Real.arccos (1 - 2 * request.radiusCheck start) =
          2 * Real.pi - |a.sweep| := by
        apply Real.arccos_eq_of_eq_cos
        · linarith [hj.sweep.2]
        · linarith
        · rw [Real.cos_two_pi_sub, Real.cos_abs, hcos]
      rw [harccos]
      simp [hl]
    · exact iff_of_false (by linarith) fun h => hl h.1

theorem exists_joins (request : EndpointArc ℝ) (start : Point ℝ) (h : start ≠ request.finish)
    (hx : request.radii.x ≠ 0) (hy : request.radii.y ≠ 0) :
    ∃ a, request.toArc start true = .ok a ∧ request.Joins start a ∧
      a.ellipse.rotation = ofDegrees request.rotation ∧
      Real.cos a.sweep = 1 - 2 * min (request.radiusCheck start) 1 := by
  obtain ⟨first, least, ha, harc⟩ := toArc_of_fit h hx hy (.inl rfl)
  refine ⟨_, harc, joins_of_angles ha h hx hy, by simp [ellipseFor, turn, ofDegrees], ?_⟩
  change Real.cos (directed request.clockwise least) = _
  rw [cos_directed, ha.cos_least, checkOf_fitted_asked]

/-- An arc between two points comes back as the one piece that was asked for, with the radii that
it has got, unless its sweep counts as a full turn. Then it comes back as two halves that end at
the start. -/
theorem pieces_toArc (start finish radii : Point ℝ) (rotation : ℝ) (large sweep : Argument ℝ)
    (h : start ≠ finish) (hx : radii.x ≠ 0) (hy : radii.y ≠ 0) :
    let request : EndpointArc ℝ := ⟨radii, rotation, large.isSet, sweep.isSet, finish⟩
    ∃ a, request.toArc start true = .ok a ∧
      (turnTolerance ≤ 2 * Real.pi - |a.sweep| →
        a.toOval.pieces = .ok (start, [⟨a.ellipse.radii, rotation,
          decide (Real.pi < |a.sweep|), sweep.isSet, finish⟩])) ∧
      (2 * Real.pi - |a.sweep| < turnTolerance →
        ∃ middle, a.ellipse.pointAt (a.startAngle + a.sweep / 2) = .ok middle ∧
          a.toOval.pieces = .ok (start,
            [⟨a.ellipse.radii, rotation, false, sweep.isSet, middle⟩,
              ⟨a.ellipse.radii, rotation, false, sweep.isSet, start⟩])) ∧
      (2 * Real.pi - |a.sweep| < turnTolerance ↔
        large.isSet = true ∧
          Real.arccos (1 - 2 * request.radiusCheck start) < turnTolerance) := by
  intro request
  obtain ⟨a, harc, hj, hrot, hcos⟩ := exists_joins request start h hx hy
  exact ⟨a, harc, pieces_of_far hj hrot, pieces_of_near hj hrot, near_fullTurn_iff hj hcos⟩

theorem pieces_toArc_semicircle :
    (⟨0, 0⟩ : Point ℝ) ≠ ⟨20, 0⟩ ∧ (10 : ℝ) ≠ 0 ∧ (-10 : ℝ) ≠ 0 ∧
      ∃ a, (⟨⟨10, -10⟩, 0, false, true, ⟨20, 0⟩⟩ : EndpointArc ℝ).toArc ⟨0, 0⟩ true = .ok a ∧
        a.toOval.pieces = .ok (⟨0, 0⟩, [⟨a.ellipse.radii, 0,
          decide (Real.pi < |a.sweep|), true, ⟨20, 0⟩⟩]) := by
  have hne : (⟨0, 0⟩ : Point ℝ) ≠ ⟨20, 0⟩ := by simp
  have hx : (10 : ℝ) ≠ 0 := by norm_num
  have hy : (-10 : ℝ) ≠ 0 := by norm_num
  obtain ⟨a, harc, hfar, -, hnear⟩ :=
    pieces_toArc ⟨0, 0⟩ ⟨20, 0⟩ ⟨10, -10⟩ 0 .absent (.flag true) hne hx hy
  refine ⟨hne, hx, hy, a, harc, hfar (not_lt.mp fun h => ?_)⟩
  exact absurd (hnear.mp h).1 (by simp [Argument.isSet])

theorem pieces_ne_single_of_short_chord :
    ∃ a, (⟨⟨1000, 1000⟩, 0, true, true, ⟨1 / 32, 0⟩⟩ : EndpointArc ℝ).toArc ⟨0, 0⟩ true = .ok a ∧
      |a.sweep| < 2 * Real.pi ∧
      ∀ piece, a.toOval.pieces ≠ .ok (⟨0, 0⟩, [piece]) := by
  have hne : (⟨0, 0⟩ : Point ℝ) ≠ ⟨1 / 32, 0⟩ := by norm_num
  have hr : (1000 : ℝ) ≠ 0 := by norm_num
  obtain ⟨a, harc, hj, hrot, hcos⟩ :=
    exists_joins ⟨⟨1000, 1000⟩, 0, true, true, ⟨1 / 32, 0⟩⟩ ⟨0, 0⟩ hne hr hr
  have hcheck : radiusCheck ⟨⟨1000, 1000⟩, 0, true, true, ⟨1 / 32, 0⟩⟩ ⟨0, 0⟩ =
      (1 / 64000) ^ 2 := by
    norm_num [radiusCheck, checkOf, halfChord, turn]
  have htol : 0 < turnTolerance := by
    have hpi := Real.pi_pos
    rw [turnTolerance_eq]
    positivity
  have hbound : Real.cos turnTolerance < 1 - 2 * (1 / 64000) ^ 2 := by
    have hpi := Real.pi_pos
    have hquad := Real.cos_le_one_sub_mul_cos_sq
      (by rw [abs_of_pos htol]; exact turnTolerance_lt_pi.le : |turnTolerance| ≤ Real.pi)
    have hratio : 2 / 10 ^ 5 ≤ turnTolerance / Real.pi := by
      rw [le_div_iff₀ hpi, turnTolerance_eq]
      linarith
    have hsq : 2 / Real.pi ^ 2 * turnTolerance ^ 2 = 2 * (turnTolerance / Real.pi) ^ 2 := by
      field_simp
    nlinarith
  -- so short a chord leaves a sweep that is within the tolerance of a full turn
  have hnear : 2 * Real.pi - |a.sweep| < turnTolerance := by
    rw [near_fullTurn_iff hj hcos, hcheck]
    refine ⟨rfl, ?_⟩
    rw [← Real.arccos_cos htol.le turnTolerance_lt_pi.le]
    exact Real.arccos_lt_arccos (Real.neg_one_le_cos _) hbound (by norm_num)
  obtain ⟨middle, -, hpieces⟩ := pieces_of_near hj hrot hnear
  refine ⟨a, harc, hj.sweep.2, fun piece hone => ?_⟩
  rw [hpieces] at hone
  simp at hone

end EndpointArc

end Linework
