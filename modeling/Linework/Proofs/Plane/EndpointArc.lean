import Linework.Proofs.Plane.Sweep
import Linework.Argument

/-!
# The arc between two points

Computed exactly, the arc that is made from a request for an arc between two points does what was
asked for: it leads from the one point to the other, on an ellipse with the radii that were asked
for or larger ones of the same shape, in the direction and with the size that the flags say.
-/

set_option autoImplicit false

namespace Linework.EndpointArc

open Scalar

noncomputable def turn (request : EndpointArc ℝ) : ℝ := request.rotation * (Real.pi / 180)

noncomputable def halfChord (request : EndpointArc ℝ) (start : Point ℝ) : Point ℝ :=
  ⟨Real.cos request.turn * ((start.x - request.finish.x) / 2) +
      Real.sin request.turn * ((start.y - request.finish.y) / 2),
    Real.cos request.turn * ((start.y - request.finish.y) / 2) -
      Real.sin request.turn * ((start.x - request.finish.x) / 2)⟩

noncomputable def middle (request : EndpointArc ℝ) (start : Point ℝ) : Point ℝ :=
  ⟨(start.x + request.finish.x) / 2, (start.y + request.finish.y) / 2⟩

/-- Up to one the chord fits into the radii that were asked for. -/
noncomputable def radiusCheck (request : EndpointArc ℝ) (start : Point ℝ) : ℝ :=
  checkOf request.radii (request.halfChord start)

/-- What it means that an arc is the one that was asked for. -/
structure Joins (request : EndpointArc ℝ) (start : Point ℝ) (a : Arc ℝ) : Prop where
  begins : a.ellipse.pointAt a.startAngle = .ok start
  ends : a.ellipse.pointAt (a.startAngle + a.sweep) = .ok request.finish
  radii : ∃ k, a.ellipse.radii = ⟨|request.radii.x| * k, |request.radii.y| * k⟩ ∧
    k = if request.radiusCheck start ≤ 1 then 1 else √(request.radiusCheck start)
  startAngle : -Real.pi ≤ a.startAngle ∧ a.startAngle ≤ Real.pi
  sweep : 0 < |a.sweep| ∧ |a.sweep| < 2 * Real.pi
  direction : 0 < a.sweep ↔ request.clockwise = true
  half : 1 ≤ request.radiusCheck start → |a.sweep| = Real.pi
  large : request.radiusCheck start < 1 → (Real.pi < |a.sweep| ↔ request.large = true)

variable {request : EndpointArc ℝ} {start : Point ℝ}

theorem checkOf_abs (radii p : Point ℝ) : checkOf ⟨|radii.x|, |radii.y|⟩ p = checkOf radii p := by
  simp [checkOf, div_pow]

theorem onUnitCircle_ne_zero (angle : ℝ) : Point.onUnitCircle angle ≠ ⟨0, 0⟩ := by
  intro h
  rw [Point.onUnitCircle_real, Point.mk.injEq] at h
  have hsum := Real.sin_sq_add_cos_sq angle
  rw [h.1, h.2] at hsum
  norm_num at hsum

theorem div_onUnitCircle (request : EndpointArc ℝ) (start : Point ℝ) :
    (⟨(start.x - request.finish.x) / 2, (start.y - request.finish.y) / 2⟩ : Point ℝ).div
      (Point.onUnitCircle request.turn) = .ok (request.halfChord start) := by
  rw [Point.div_real _ (onUnitCircle_ne_zero _), Point.onUnitCircle_real, halfChord,
    Real.cos_sq_add_sin_sq]
  congr 2 <;> ring

theorem onUnitCircle_mul_halfChord (request : EndpointArc ℝ) (start : Point ℝ) :
    Point.onUnitCircle request.turn * request.halfChord start =
      ⟨(start.x - request.finish.x) / 2, (start.y - request.finish.y) / 2⟩ := by
  have hsum := Real.sin_sq_add_cos_sq request.turn
  rw [Point.onUnitCircle_real, halfChord]
  ext
  · simp only [Point.mul_x]
    linear_combination (start.x - request.finish.x) / 2 * hsum
  · simp only [Point.mul_y]
    linear_combination (start.y - request.finish.y) / 2 * hsum

theorem halfChord_add_middle (request : EndpointArc ℝ) (start : Point ℝ) :
    Point.onUnitCircle request.turn * request.halfChord start + request.middle start = start := by
  rw [onUnitCircle_mul_halfChord, middle]
  ext
  · simp only [Point.add_x]
    ring
  · simp only [Point.add_y]
    ring

theorem neg_halfChord_add_middle (request : EndpointArc ℝ) (start : Point ℝ) :
    Point.onUnitCircle request.turn *
        ⟨-(request.halfChord start).x, -(request.halfChord start).y⟩ + request.middle start =
      request.finish := by
  rw [Point.mul_neg_mk, onUnitCircle_mul_halfChord, middle]
  ext
  · simp only [Point.add_x]
    ring
  · simp only [Point.add_y]
    ring

theorem halfChord_ne_zero (h : start ≠ request.finish) : request.halfChord start ≠ ⟨0, 0⟩ := by
  intro h0
  have hmul := onUnitCircle_mul_halfChord request start
  rw [h0, Point.ext_iff] at hmul
  simp only [Point.mul_x, Point.mul_y, mul_zero, sub_zero, add_zero] at hmul
  exact h (Point.ext (by linarith [hmul.1]) (by linarith [hmul.2]))

noncomputable def asked (request : EndpointArc ℝ) : Point ℝ :=
  ⟨|request.radii.x|, |request.radii.y|⟩

noncomputable def ellipseFor (request : EndpointArc ℝ) (start : Point ℝ) : Ellipse ℝ :=
  ⟨Point.onUnitCircle request.turn *
      innerOf (fitted request.asked (request.halfChord start)) (request.halfChord start)
        (request.large == request.clockwise) + request.middle start,
    fitted request.asked (request.halfChord start), request.turn⟩

theorem fitted_asked_ne_zero (hx : request.radii.x ≠ 0) (hy : request.radii.y ≠ 0) (p : Point ℝ) :
    (fitted request.asked p).x ≠ 0 ∧ (fitted request.asked p).y ≠ 0 := by
  have hf := (factorOf_pos request.asked p).ne'
  exact ⟨mul_ne_zero (abs_ne_zero.mpr hx) hf, mul_ne_zero (abs_ne_zero.mpr hy) hf⟩

theorem checkOf_fitted_asked (request : EndpointArc ℝ) (start : Point ℝ) :
    checkOf (fitted request.asked (request.halfChord start)) (request.halfChord start) =
      min (request.radiusCheck start) 1 := by
  rw [checkOf_fitted, asked, checkOf_abs, radiusCheck]

theorem toArc_eq_bind_fit (h : start ≠ request.finish) (hx : request.radii.x ≠ 0)
    (hy : request.radii.y ≠ 0) (autoscale : Bool) :
    request.toArc start autoscale =
      (fit ⟨|request.radii.x|, |request.radii.y|⟩ (request.halfChord start)
        (request.large == request.clockwise) autoscale >>= fun (radii, inner) => do
        let u ← inRadii radii inner (request.halfChord start)
        let v ← inRadii radii inner ⟨-(request.halfChord start).x, -(request.halfChord start).y⟩
        let startAngle ← (⟨1, 0⟩ : Point ℝ).angleTo u
        let least ← u.angleTo v
        pure ⟨⟨Point.onUnitCircle request.turn * inner + request.middle start, radii,
          request.turn⟩, startAngle, directed request.clockwise least, start, request.finish⟩) := by
  have hphi : ofDegrees request.rotation = request.turn := by
    simp [ofDegrees, turn]
  have h2 : (whole 2 : ℝ) ≠ 0 := by simp
  have hone : Point.ofReal (whole 1 : ℝ) = ⟨1, 0⟩ := by simp
  have hbeq : ¬ start.beq request.finish = true := by rwa [Point.beq_real]
  have hzero : ¬ (isZero |request.radii.x| || isZero |request.radii.y|) = true := by simp [hx, hy]
  rw [toArc, if_neg hbeq]
  simp only [real_magnitude]
  rw [if_neg hzero, hphi, hone, Point.divBy_real _ h2, Point.divBy_real _ h2]
  simp only [ok_bind, Point.sub_x, Point.sub_y, Point.add_x, Point.add_y, real_whole,
    Nat.cast_ofNat, div_onUnitCircle, Point.ofReal_add_upward, middle]

theorem toArc_refused (h : start ≠ request.finish) (hx : request.radii.x ≠ 0)
    (hy : request.radii.y ≠ 0) (hc : 1 < request.radiusCheck start) :
    request.toArc start false = .error .noSuchArc := by
  rw [toArc_eq_bind_fit h hx hy, fit_refused (by simpa using hx) (by simpa using hy)
    (by rwa [checkOf_abs]), error_bind]

section Found

variable {first least : ℝ}
  (ha : Angles (fitted request.asked (request.halfChord start)) (request.halfChord start)
    (request.large == request.clockwise) first least)

include ha

theorem ellipseFor_begins (hx : request.radii.x ≠ 0) (hy : request.radii.y ≠ 0) :
    (request.ellipseFor start).pointAt first = .ok start := by
  obtain ⟨hrx, hry⟩ := fitted_asked_ne_zero hx hy (request.halfChord start)
  have hpoint := pointAt_of_seen hrx hry _ (request.halfChord start) (request.middle start) _
    request.turn ha.begins.1 ha.begins.2
  rwa [halfChord_add_middle] at hpoint

theorem ellipseFor_ends (hx : request.radii.x ≠ 0) (hy : request.radii.y ≠ 0) :
    (request.ellipseFor start).pointAt (first + directed request.clockwise least) =
      .ok request.finish := by
  obtain ⟨hrx, hry⟩ := fitted_asked_ne_zero hx hy (request.halfChord start)
  have hseen := ha.ends_directed request.clockwise
  have hpoint := pointAt_of_seen hrx hry _ _ (request.middle start) _ request.turn hseen.1 hseen.2
  rwa [neg_halfChord_add_middle] at hpoint

theorem directed_least_eq_pi (hc : 1 ≤ request.radiusCheck start) :
    |directed request.clockwise least| = Real.pi := by
  have hcheck := checkOf_fitted_asked request start
  rw [min_eq_right hc] at hcheck
  rw [ha.least_eq_pi hcheck, directed_pi]

/-- The centre is on the one or the other side of the chord just so that the larger arc results. -/
theorem directed_least_large (hpos : 0 < request.radiusCheck start)
    (hc : request.radiusCheck start < 1) :
    Real.pi < |directed request.clockwise least| ↔ request.large = true := by
  have hcheck := checkOf_fitted_asked request start
  rw [min_eq_left hc.le] at hcheck
  rw [← hcheck] at hpos hc
  obtain ⟨hlt, hside⟩ := ha.least_neg_iff hpos hc
  rw [directed_large request.clockwise (ha.least_ne_zero hpos) ha.least_range.1 hlt, hside]
  cases request.clockwise <;> simp

theorem joins_of_angles (h : start ≠ request.finish) (hx : request.radii.x ≠ 0)
    (hy : request.radii.y ≠ 0) :
    request.Joins start ⟨request.ellipseFor start, first, directed request.clockwise least, start,
      request.finish⟩ := by
  have hp := halfChord_ne_zero h
  have hpos : 0 < request.radiusCheck start := checkOf_pos hx hy hp
  have hne : least ≠ 0 := by
    obtain ⟨hrx, hry⟩ := fitted_asked_ne_zero hx hy (request.halfChord start)
    exact ha.least_ne_zero (checkOf_pos hrx hry hp)
  obtain ⟨hsize, hturn, hsign⟩ :=
    directed_range request.clockwise hne ha.least_range.1 ha.least_range.2
  have hfactor : factorOf request.asked (request.halfChord start) =
      if request.radiusCheck start ≤ 1 then 1 else √(request.radiusCheck start) := by
    rw [factorOf, asked, checkOf_abs, radiusCheck]
  exact
    { begins := ellipseFor_begins ha hx hy
      ends := ellipseFor_ends ha hx hy
      radii := ⟨_, rfl, hfactor⟩
      startAngle := ⟨ha.first_range.1.le, ha.first_range.2⟩
      sweep := ⟨hsize, hturn⟩
      direction := hsign
      half := directed_least_eq_pi ha
      large := directed_least_large ha hpos }

end Found

theorem toArc_of_fit (h : start ≠ request.finish) (hx : request.radii.x ≠ 0)
    (hy : request.radii.y ≠ 0) {autoscale : Bool}
    (hfit : autoscale = true ∨ request.radiusCheck start ≤ 1) :
    ∃ first least, Angles (fitted request.asked (request.halfChord start)) (request.halfChord start)
        (request.large == request.clockwise) first least ∧
      request.toArc start autoscale = .ok ⟨request.ellipseFor start, first,
        directed request.clockwise least, start, request.finish⟩ := by
  obtain ⟨hrx, hry⟩ := fitted_asked_ne_zero hx hy (request.halfChord start)
  have hp := halfChord_ne_zero h
  obtain ⟨first, least, ha⟩ := exists_angles hrx hry hp
    ((checkOf_fitted_asked request start).trans_le (min_le_right _ _))
    (request.large == request.clockwise)
  refine ⟨first, least, ha, ?_⟩
  have hfit' : autoscale = true ∨ checkOf request.asked (request.halfChord start) ≤ 1 := by
    rwa [asked, checkOf_abs, ← radiusCheck]
  rw [toArc_eq_bind_fit h hx hy]
  change (fit request.asked _ _ _ >>= _) = _
  rw [fit_ok (abs_ne_zero.mpr hx) (abs_ne_zero.mpr hy) hp hfit', ok_bind]
  simp only [inRadii_innerOf hrx hry, ok_bind, ha.first_eq, ha.least_eq]
  rfl

theorem joins_of_fit (h : start ≠ request.finish) (hx : request.radii.x ≠ 0)
    (hy : request.radii.y ≠ 0) {autoscale : Bool}
    (hfit : autoscale = true ∨ request.radiusCheck start ≤ 1) :
    ∃ a, request.toArc start autoscale = .ok a ∧ request.Joins start a := by
  obtain ⟨first, least, ha, harc⟩ := toArc_of_fit h hx hy hfit
  exact ⟨_, harc, joins_of_angles ha h hx hy⟩

/-- Between different points and for radii of either sign that are not zero, a request gives the
arc that it asks for, unless the radii are too small and may not be scaled up. -/
theorem toArc_joins (start finish radii : Point ℝ) (rotation : ℝ) (large sweep : Argument ℝ)
    (autoscale : Bool) (h : start ≠ finish) (hx : radii.x ≠ 0) (hy : radii.y ≠ 0) :
    let request : EndpointArc ℝ := ⟨radii, rotation, large.isSet, sweep.isSet, finish⟩
    (autoscale = true ∨ request.radiusCheck start ≤ 1 →
      ∃ a, request.toArc start autoscale = .ok a ∧ request.Joins start a) ∧
    ((∃ e, request.toArc start false = .error e ∧ e.kind.within .value = true) ↔
      1 < request.radiusCheck start) := by
  intro request
  refine ⟨joins_of_fit h hx hy, ?_, ?_⟩
  · rintro ⟨e, he, -⟩
    by_contra hc
    have hok : ∃ a, request.toArc start false = .ok a ∧ request.Joins start a :=
      joins_of_fit h hx hy (.inr (not_lt.mp hc))
    obtain ⟨a, ha, -⟩ := hok
    rw [he] at ha
    cases ha
  · intro hc
    exact ⟨.noSuchArc, toArc_refused h hx hy hc, rfl⟩

theorem toArc_joins_semicircle :
    (⟨0, 0⟩ : Point ℝ) ≠ ⟨20, 0⟩ ∧ (10 : ℝ) ≠ 0 ∧ (-10 : ℝ) ≠ 0 ∧
      ∃ a, (⟨⟨10, -10⟩, 0, false, true, ⟨20, 0⟩⟩ : EndpointArc ℝ).toArc ⟨0, 0⟩ true = .ok a ∧
        (⟨⟨10, -10⟩, 0, false, true, ⟨20, 0⟩⟩ : EndpointArc ℝ).Joins ⟨0, 0⟩ a := by
  have hne : (⟨0, 0⟩ : Point ℝ) ≠ ⟨20, 0⟩ := by simp
  have hx : (10 : ℝ) ≠ 0 := by norm_num
  have hy : (-10 : ℝ) ≠ 0 := by norm_num
  exact ⟨hne, hx, hy,
    (toArc_joins ⟨0, 0⟩ ⟨20, 0⟩ ⟨10, -10⟩ 0 .absent (.flag true) true hne hx hy).1 (.inl rfl)⟩

end Linework.EndpointArc
