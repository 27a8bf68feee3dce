import Linework.Proofs.Plane.Axes
import Linework.Proofs.Plane.Retrace
import Linework.Proofs.Plane.RoundTrip

/-!
# The image of an ellipse and of its arcs

A transform takes an ellipse to the one with the axes of its linear part for radii. A point runs
along the image at the same pace, from some angle on, and the other way round if the transform
reverses orientation. So an arc between two points is taken to the arc between their images that is
asked for with these radii, the same size, and the other direction if orientation is reversed.
-/

set_option autoImplicit false

namespace Linework

open Scalar

namespace Affine

variable {m : Affine ℝ} {e image : Ellipse ℝ} {a : Axes ℝ} {σ c : ℝ}

theorem determinant_real (m : Affine ℝ) : m.determinant = m.a * m.d - m.b * m.c := by
  have hratio : ∀ x y : ℝ, ratio x y = x / y := by
    intro x y
    rw [ratio, real_isFinite, if_pos rfl, real_whole, Nat.cast_one]
    ring
  rw [determinant, hratio, hratio]
  simp only [real_magnitude, real_blt, real_isZero, real_whole, Nat.cast_zero]
  split_ifs with hb ha
  · have hne : m.b ≠ 0 := abs_pos.mp ((abs_nonneg m.a).trans_lt hb)
    field_simp
    ring
  · have hne : m.b = 0 := by
      rw [ha, abs_zero] at hb
      exact abs_nonpos_iff.mp (not_lt.mp hb)
    rw [ha, hne]
    ring
  · field_simp

theorem reverses_real (m : Affine ℝ) : m.reverses = true ↔ m.a * m.d - m.b * m.c < 0 := by
  rw [reverses, real_blt, determinant_real, real_whole, Nat.cast_zero]

noncomputable def onAxes (m : Affine ℝ) (radii : Point ℝ) (rotation : ℝ) : Matrix2 ℝ :=
  ⟨m.a * (Real.cos rotation * radii.x) + m.c * (Real.sin rotation * radii.x),
    m.a * (-Real.sin rotation * radii.y) + m.c * (Real.cos rotation * radii.y),
    m.b * (Real.cos rotation * radii.x) + m.d * (Real.sin rotation * radii.x),
    m.b * (-Real.sin rotation * radii.y) + m.d * (Real.cos rotation * radii.y)⟩

theorem stretched_real (m : Affine ℝ) (radii : Point ℝ) (rotation : ℝ) :
    m.stretched radii rotation = .ok (m.onAxes radii rotation) := rfl

theorem det_onAxes (m : Affine ℝ) (radii : Point ℝ) (rotation : ℝ) :
    (m.onAxes radii rotation).det = (m.a * m.d - m.b * m.c) * (radii.x * radii.y) := by
  have hsq := Real.sin_sq_add_cos_sq rotation
  rw [onAxes, Matrix2.det]
  linear_combination (m.a * m.d - m.b * m.c) * (radii.x * radii.y) * hsq

theorem apply_point (m : Affine ℝ) (e : Ellipse ℝ) (θ : ℝ) :
    m.apply (e.point θ) = (m.onAxes e.radii e.rotation).circlePoint θ + m.apply e.center := by
  rw [Ellipse.point, Point.onUnitCircle_real, onAxes, Matrix2.circlePoint, apply, apply]
  ext
  · simp only [Point.add_x, Point.add_y, Point.mul_x, Point.mul_y]
    ring
  · simp only [Point.add_x, Point.add_y, Point.mul_x, Point.mul_y]
    ring

noncomputable def imageEllipse (m : Affine ℝ) (e : Ellipse ℝ) (a : Axes ℝ) : Ellipse ℝ :=
  ⟨m.apply e.center, ⟨a.major, a.minor⟩, a.angle⟩

/-- What it means that an ellipse is run through as the image of another one: each angle stands for
another one, at the same pace and with the sense of rotation that the transform gives. -/
structure Carries (m : Affine ℝ) (e image : Ellipse ℝ) (σ c : ℝ) : Prop where
  sign : σ = 1 ∨ σ = -1
  reverses : m.reverses = true ↔ σ = -1
  apply_point : ∀ θ, m.apply (e.point θ) = image.point (σ * θ + c)

theorem exists_carries (hx : 0 < e.radii.x) (hy : 0 < e.radii.y)
    (h : IsAxes (m.onAxes e.radii e.rotation) a) (hminor : 0 < a.minor) :
    ∃ σ c, m.Carries e (m.imageEllipse e a) σ c := by
  obtain ⟨σ, c, hσ, hdet, hcircle⟩ := h.exists_turn
  have harea : 0 < a.major * a.minor := mul_pos (hminor.trans_le h.minor_le) hminor
  refine ⟨σ, c, hσ, ?_, fun θ => ?_⟩
  · rw [det_onAxes] at hdet
    have hpos : 0 < e.radii.x * e.radii.y := mul_pos hx hy
    rw [reverses_real]
    constructor
    · intro hneg
      refine hσ.resolve_left fun hone => ?_
      rw [hone, one_mul] at hdet
      exact absurd (mul_neg_of_neg_of_pos hneg hpos) (hdet ▸ harea.not_gt)
    · intro hone
      rw [hone] at hdet
      by_contra hn
      have := mul_nonneg (not_lt.mp hn) hpos.le
      linarith
  · rw [m.apply_point, hcircle]
    rfl

theorem Carries.image_range (h : m.Carries e image σ c) :
    m.apply '' Set.range e.point = Set.range image.point := by
  ext p
  constructor
  · rintro ⟨-, ⟨θ, rfl⟩, rfl⟩
    exact ⟨σ * θ + c, (h.apply_point θ).symm⟩
  · rintro ⟨θ, rfl⟩
    refine ⟨_, ⟨σ * (θ - c), rfl⟩, ?_⟩
    rw [h.apply_point, sign_mul_sign_mul h.sign, sub_add_cancel]

end Affine

namespace Ellipse

variable {e : Ellipse ℝ} {s t : ℝ}

theorem cos_sin_of_point_eq (hx : e.radii.x ≠ 0) (hy : e.radii.y ≠ 0) (h : e.point s = e.point t) :
    Real.cos s = Real.cos t ∧ Real.sin s = Real.sin t := by
  have hsq := Real.sin_sq_add_cos_sq e.rotation
  rw [point, point, Point.onUnitCircle_real, Point.ext_iff] at h
  simp only [Point.add_x, Point.add_y, Point.mul_x, Point.mul_y] at h
  obtain ⟨h₁, h₂⟩ := h
  constructor
  · apply mul_left_cancel₀ hx
    linear_combination Real.cos e.rotation * h₁ + Real.sin e.rotation * h₂ -
      e.radii.x * (Real.cos s - Real.cos t) * hsq
  · apply mul_left_cancel₀ hy
    linear_combination Real.cos e.rotation * h₂ - Real.sin e.rotation * h₁ -
      e.radii.y * (Real.sin s - Real.sin t) * hsq

theorem point_add_congr (hx : e.radii.x ≠ 0) (hy : e.radii.y ≠ 0) (h : e.point s = e.point t)
    (x : ℝ) : e.point (s + x) = e.point (t + x) := by
  obtain ⟨hcos, hsin⟩ := cos_sin_of_point_eq hx hy h
  apply point_congr
  · rw [Real.cos_add, Real.cos_add, hcos, hsin]
  · rw [Real.sin_add, Real.sin_add, hcos, hsin]

end Ellipse

namespace Arc

noncomputable def point (a : Arc ℝ) (t : ℝ) : Point ℝ :=
  a.ellipse.point (a.startAngle + t * a.sweep)

/-- An arc that runs along as the image of another one. -/
structure ImageOf (m : Affine ℝ) (a b : Arc ℝ) : Prop where
  start : b.start = m.apply a.start
  finish : b.finish = m.apply a.finish
  point : ∀ t, b.point t = m.apply (a.point t)

end Arc

namespace EndpointArc

/-- A request that an ellipse of given radii and turn has an arc for. -/
structure Fits (radii : Point ℝ) (rotation : ℝ) (start : Point ℝ) (request : EndpointArc ℝ) :
    Prop where
  radii_eq : request.radii = radii
  rotation_eq : request.rotation = toDegrees rotation
  ne : start ≠ request.finish
  check : request.radiusCheck start ≤ 1

def AllFit (radii : Point ℝ) (rotation : ℝ) : Point ℝ → List (EndpointArc ℝ) → Prop
  | _, [] => True
  | start, request :: rest =>
    request.Fits radii rotation start ∧ AllFit radii rotation request.finish rest

noncomputable def carried (m : Affine ℝ) (a : Axes ℝ) (request : EndpointArc ℝ) : EndpointArc ℝ :=
  ⟨⟨a.major, a.minor⟩, toDegrees a.angle, request.large, request.clockwise != m.reverses,
    m.apply request.finish⟩

theorem IsHalf.sign_mul {σ h : ℝ} {large : Bool} (hh : IsHalf h large) (hσ : σ = 1 ∨ σ = -1) :
    IsHalf (σ * h) large := by
  refine ⟨mul_ne_zero (ne_zero_of_sign hσ) hh.ne_zero, abs_sign_mul hσ h ▸ hh.lt_pi, fun hl => ?_,
    fun hl => ?_⟩
  · rw [cos_sign_mul hσ]
    exact hh.larger hl
  · rw [cos_sign_mul hσ]
    exact hh.smaller hl

variable {radii start : Point ℝ} {rotation : ℝ} {request : EndpointArc ℝ}

theorem Joins.isHalf {a : Arc ℝ} (hj : request.Joins start a)
    (hcheck : request.radiusCheck start ≤ 1) :
    IsHalf (a.sweep / 2) request.large := by
  have habs : |a.sweep / 2| = |a.sweep| / 2 := by rw [abs_div, abs_two]
  have hcos : Real.cos (a.sweep / 2) = Real.cos (|a.sweep| / 2) := by rw [← Real.cos_abs, habs]
  obtain ⟨hpos, hlt⟩ := hj.sweep
  have hsize : (request.large = true → Real.pi ≤ |a.sweep|) ∧
      (request.large = false → |a.sweep| ≤ Real.pi) := by
    rcases hcheck.lt_or_eq with hc | hc
    · have hlarge := hj.large hc
      exact ⟨fun hl => (hlarge.mpr hl).le, fun hl => not_lt.mp fun h => by simp [hlarge.mp h] at hl⟩
    · have hhalf := hj.half hc.ge
      exact ⟨fun _ => hhalf.ge, fun _ => hhalf.le⟩
  refine ⟨div_ne_zero (abs_pos.mp hpos) two_ne_zero, by rw [habs]; linarith, fun hl => ?_,
    fun hl => ?_⟩
  · rw [hcos]
    exact Real.cos_nonpos_of_pi_div_two_le_of_le (by linarith [hsize.1 hl]) (by linarith)
  · rw [hcos]
    exact Real.cos_nonneg_of_neg_pi_div_two_le_of_le (by linarith [Real.pi_pos])
      (by linarith [hsize.2 hl])

theorem Fits.exists_about (hx : 0 < radii.x) (hy : 0 < radii.y)
    (h : request.Fits radii rotation start) :
    ∃ (e : Ellipse ℝ) (μ η : ℝ), e.radii = radii ∧ e.rotation = rotation ∧
      request = about e μ η request.large ∧ start = e.point (μ - η) ∧ IsHalf η request.large := by
  obtain ⟨a, -, hj, hturn, -⟩ := exists_joins request start h.ne
    (by rw [h.radii_eq]; exact hx.ne') (by rw [h.radii_eq]; exact hy.ne')
  have hradii : a.ellipse.radii = radii := by
    obtain ⟨k, hk, hone⟩ := hj.radii
    rw [if_pos h.check] at hone
    rw [hk, hone, h.radii_eq, mul_one, mul_one, abs_of_pos hx, abs_of_pos hy]
  have hrotation : a.ellipse.rotation = rotation := by
    rw [hturn, h.rotation_eq, real_ofDegrees_toDegrees]
  have hway : blt (whole 0) (a.sweep / 2) = request.clockwise := by
    rw [Bool.eq_iff_iff, real_blt, real_whole, Nat.cast_zero, ← hj.direction]
    constructor <;> intro hs <;> linarith
  have hbegin : a.startAngle + a.sweep / 2 - a.sweep / 2 = a.startAngle := by ring
  have hend : a.startAngle + a.sweep / 2 + a.sweep / 2 = a.startAngle + a.sweep := by ring
  have hbegins := hj.begins
  have hends := hj.ends
  rw [Ellipse.pointAt_point, Except.ok.injEq] at hbegins hends
  refine ⟨a.ellipse, a.startAngle + a.sweep / 2, a.sweep / 2, hradii, hrotation, ?_, ?_,
    hj.isHalf h.check⟩
  · rw [about, hway, hend, hends, hradii, hrotation, ← h.radii_eq, ← h.rotation_eq]
  · rw [hbegin, hbegins]

theorem way_bne_reverses {m : Affine ℝ} {e image : Ellipse ℝ} {σ c η : ℝ}
    (hc : m.Carries e image σ c) (hη : η ≠ 0) :
    (blt (whole 0) η != m.reverses) = blt (whole 0) (σ * η) := by
  rcases hc.sign with rfl | rfl
  · have hkept : m.reverses = false := by
      rw [← Bool.not_eq_true, hc.reverses]
      norm_num
    rw [hkept, one_mul, Bool.bne_false]
  · rw [hc.reverses.mpr rfl, neg_one_mul]
    rcases lt_or_gt_of_ne hη with hn | hp
    · rw [way_of_neg hn, way_of_pos (neg_pos.mpr hn)]
      rfl
    · rw [way_of_pos hp, way_of_neg (neg_neg_of_pos hp)]
      rfl

theorem carried_about {m : Affine ℝ} {e : Ellipse ℝ} {a : Axes ℝ} {σ c μ η : ℝ} {large : Bool}
    (hc : m.Carries e (m.imageEllipse e a) σ c) (hη : η ≠ 0) :
    (about e μ η large).carried m a = about (m.imageEllipse e a) (σ * μ + c) (σ * η) large := by
  have hend : σ * (μ + η) + c = σ * μ + c + σ * η := by ring
  have hfinish : m.apply (e.point (μ + η)) = (m.imageEllipse e a).point (σ * μ + c + σ * η) := by
    rw [hc.apply_point, hend]
  have hway := way_bne_reverses hc hη
  rw [carried, about, about, hway, hfinish]
  rfl

/-- A request that fits gives an arc, and what it becomes gives the image of that arc. -/
theorem Fits.toArc_carried {m : Affine ℝ} {a : Axes ℝ} (hx : 0 < radii.x) (hy : 0 < radii.y)
    (ha : IsAxes (m.onAxes radii rotation) a) (hminor : 0 < a.minor)
    (h : request.Fits radii rotation start) (autoscale : Bool) :
    ∃ arc image, request.toArc start autoscale = .ok arc ∧
      (request.carried m a).toArc (m.apply start) autoscale = .ok image ∧ arc.ImageOf m image := by
  obtain ⟨e, μ, η, rfl, rfl, hrequest, rfl, hη⟩ := h.exists_about hx hy
  obtain ⟨σ, c, hc⟩ := Affine.exists_carries hx hy ha hminor
  have hmajor : 0 < a.major := hminor.trans_le ha.minor_le
  obtain ⟨first, harc, hfirst⟩ := hη.toArc_about (m := μ) hx hy autoscale
  obtain ⟨first', harc', hfirst'⟩ :=
    (hη.sign_mul hc.sign).toArc_about (e := m.imageEllipse e a) (m := σ * μ + c) hmajor hminor
      autoscale
  rw [Ellipse.pointAt_point, Except.ok.injEq] at hfirst hfirst'
  have hbegin : m.apply (e.point (μ - η)) =
      (m.imageEllipse e a).point (σ * μ + c - σ * η) := by
    rw [hc.apply_point]
    ring_nf
  have hend : m.apply (e.point (μ + η)) = (m.imageEllipse e a).point (σ * μ + c + σ * η) := by
    rw [hc.apply_point]
    ring_nf
  rw [← hrequest] at harc
  rw [← carried_about hc hη.ne_zero, ← hrequest, ← hbegin, ← hend] at harc'
  refine ⟨_, _, harc, harc', rfl, rfl, fun t => ?_⟩
  -- both arcs have their first angles at the same point of the ellipse as the ends of the part
  have hsource := Ellipse.point_add_congr hx.ne' hy.ne' hfirst (t * (2 * η))
  have htarget := Ellipse.point_add_congr (e := m.imageEllipse e a) hmajor.ne' hminor.ne' hfirst'
    (t * (2 * (σ * η)))
  rw [Arc.point, Arc.point, hsource, htarget, hc.apply_point]
  ring_nf

theorem toArcs_carried {m : Affine ℝ} {a : Axes ℝ} (hx : 0 < radii.x) (hy : 0 < radii.y)
    (ha : IsAxes (m.onAxes radii rotation) a) (hminor : 0 < a.minor)
    {requests : List (EndpointArc ℝ)} (h : AllFit radii rotation start requests)
    (autoscale : Bool) :
    ∃ arcs images, toArcs autoscale start requests = .ok arcs ∧
      toArcs autoscale (m.apply start) (requests.map (carried m a)) = .ok images ∧
      List.Forall₂ (Arc.ImageOf m) arcs images := by
  induction requests generalizing start with
  | nil => exact ⟨[], [], rfl, rfl, .nil⟩
  | cons request rest ih =>
    obtain ⟨hfits, hrest⟩ := h
    obtain ⟨arc, image, harc, himage, hof⟩ := hfits.toArc_carried hx hy ha hminor autoscale
    obtain ⟨arcs, images, harcs, himages, hofs⟩ := ih hrest
    refine ⟨arc :: arcs, image :: images, ?_, ?_, .cons hof hofs⟩
    · rw [toArcs, harc, ok_bind, harcs]
      rfl
    · have hnext : toArcs autoscale (request.carried m a).finish (rest.map (carried m a)) =
          .ok images := himages
      rw [List.map_cons, toArcs, himage, ok_bind, hnext]
      rfl

end EndpointArc

namespace Oval

open EndpointArc

section Pieces

variable {o : Oval ℝ}

theorem pieces_none (h0 : o.sweep = 0) : o.pieces = .ok (o.ellipse.point o.startAngle, []) := by
  rw [pieces_eq_bind (o.ellipse.pointAt_point _) (o.ellipse.pointAt_point _), piecesOf]
  simp only [h0]
  rw [if_pos (by simp)]
  rfl

theorem abs_sweep_le (o : Oval ℝ) : |o.sweep| ≤ 2 * Real.pi :=
  abs_sweepBetween_le o.startAngle o.endAngle o.anticlockwise

theorem abs_sweep_lt (hturn : ¬ isClose |o.sweep| fullTurn = true) : |o.sweep| < 2 * Real.pi := by
  refine lt_of_le_of_ne o.abs_sweep_le fun h => hturn ?_
  rw [real_isClose, real_fullTurn, h, sub_self, abs_zero]
  have := Real.pi_pos
  positivity

theorem sin_ne_zero_of_abs_lt {x : ℝ} (h0 : x ≠ 0) (h : |x| < Real.pi) : Real.sin x ≠ 0 := by
  rw [abs_lt] at h
  exact (Real.sin_eq_zero_iff_of_lt_of_lt h.1 h.2).not.mpr h0

variable (hx : 0 < o.ellipse.radii.x) (hy : 0 < o.ellipse.radii.y)

include hx hy

theorem fits_piece {h : ℝ} (hsin : Real.sin h ≠ 0) (large : Bool) (θ : ℝ) :
    (o.piece large (o.ellipse.point (θ + 2 * h))).Fits o.ellipse.radii o.ellipse.rotation
      (o.ellipse.point θ) := by
  have hstart : θ + h - h = θ := by ring
  have hend : θ + h + h = θ + 2 * h := by ring
  have hcheck : (o.piece large (o.ellipse.point (θ + 2 * h))).radiusCheck (o.ellipse.point θ) =
      Real.sin h ^ 2 := by
    have habout : (about o.ellipse (θ + h) h false).radiusCheck (o.ellipse.point (θ + h - h)) =
        Real.sin h ^ 2 := radiusCheck_about hx hy
    rw [hstart] at habout
    rw [← habout, about, hend]
    rfl
  refine ⟨rfl, rfl, fun heq => ?_, hcheck.trans_le (Real.sin_sq_le_one h)⟩
  have hzero : (o.piece large (o.ellipse.point (θ + 2 * h))).radiusCheck (o.ellipse.point θ) =
      0 := by
    change o.ellipse.point θ = o.ellipse.point (θ + 2 * h) at heq
    simp [radiusCheck, halfChord, piece, checkOf, heq]
  exact hsin (pow_eq_zero_iff two_ne_zero |>.mp (hcheck ▸ hzero))

theorem exists_allFit_pieces :
    ∃ pieces, o.pieces = .ok (o.ellipse.point o.startAngle, pieces) ∧
      AllFit o.ellipse.radii o.ellipse.rotation (o.ellipse.point o.startAngle) pieces := by
  by_cases h0 : o.sweep = 0
  · exact ⟨[], pieces_none h0, trivial⟩
  have hle := o.abs_sweep_le
  have hpi := Real.pi_pos
  by_cases hturn : isClose |o.sweep| fullTurn = true
  · have hquarter : |o.sweep / 4| < Real.pi := by
      rw [abs_div, abs_of_pos (by norm_num : (0 : ℝ) < 4)]
      linarith
    have hsin := sin_ne_zero_of_abs_lt (div_ne_zero h0 four_ne_zero) hquarter
    have hforth : o.startAngle + 2 * (o.sweep / 4) = o.startAngle + o.sweep / 2 := by ring
    have hback : o.startAngle + o.sweep / 2 + 2 * -(o.sweep / 4) = o.startAngle := by ring
    have hfirst := fits_piece hx hy hsin false o.startAngle
    have hsecond := fits_piece hx hy (h := -(o.sweep / 4)) (by rwa [Real.sin_neg, neg_ne_zero])
      false (o.startAngle + o.sweep / 2)
    rw [hforth] at hfirst
    rw [hback] at hsecond
    exact ⟨_, pieces_two (o.ellipse.pointAt_point _) (o.ellipse.pointAt_point _) h0 hturn
      (o.ellipse.pointAt_point _), hfirst, hsecond, trivial⟩
  · have hhalf : |o.sweep / 2| < Real.pi := by
      rw [abs_div, abs_two]
      linarith [abs_sweep_lt hturn]
    have hwhole : o.startAngle + 2 * (o.sweep / 2) = o.startAngle + o.sweep := by ring
    have hfits := fits_piece hx hy (sin_ne_zero_of_abs_lt (div_ne_zero h0 two_ne_zero) hhalf)
      (blt Real.pi |o.sweep|) o.startAngle
    rw [hwhole] at hfits
    exact ⟨_, pieces_one (o.ellipse.pointAt_point _) (o.ellipse.pointAt_point _) h0 hturn,
      hfits, trivial⟩

theorem exists_retraced (h0 : o.sweep ≠ 0)
    (hturn : |o.sweep| = fullTurn ∨ ¬ isClose |o.sweep| fullTurn = true) (autoscale : Bool) :
    ∃ start pieces arcs, o.Retraced autoscale start pieces arcs := by
  rcases hturn with hfull | hturn
  · exact retraced_two hx hy (hfull.trans real_fullTurn) autoscale
  · exact retraced_one hx hy h0 (abs_sweep_lt hturn) hturn autoscale

omit hx hy in
theorem retraced_of_pieces {autoscale : Bool} {start : Point ℝ} {pieces : List (EndpointArc ℝ)}
    {arcs : List (Arc ℝ)} (h : ∃ start pieces arcs, o.Retraced autoscale start pieces arcs)
    (hpieces : o.pieces = .ok (start, pieces)) (harcs : toArcs autoscale start pieces = .ok arcs) :
    o.Retraced autoscale start pieces arcs := by
  obtain ⟨start', pieces', arcs', h⟩ := h
  obtain ⟨rfl, rfl⟩ := Prod.mk.inj (Except.ok.inj (h.pieces_eq.symm.trans hpieces))
  obtain rfl := Except.ok.inj (h.arcs_eq.symm.trans harcs)
  exact h

end Pieces

end Oval

end Linework
