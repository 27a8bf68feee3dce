import Mathlib
import Linework.Proofs.Plane.Image
import Linework.Proofs.Plane.Velocity

/-!
# The image of an arc on a line

A transform with a singular linear part takes an ellipse to a stretch of a line. A point that runs
along the ellipse moves on this line like a cosine: it turns back where the sine is zero, and
between two such places it covers what lies between its ends. So lines from piece to piece cover the
image of an arc exactly if the point never turns back on the way, except at an end of a piece.
-/

set_option autoImplicit false

namespace Linework

open Scalar Set

section Cosines

variable {a b x : ℝ}

theorem sin_sign_of_ne_zero (h : ∀ x ∈ uIoo a b, Real.sin x ≠ 0) :
    (∀ x ∈ uIoo a b, 0 < Real.sin x) ∨ ∀ x ∈ uIoo a b, Real.sin x < 0 := by
  by_contra hn
  push Not at hn
  obtain ⟨⟨x, hx, hx0⟩, y, hy, hy0⟩ := hn
  have hzero : (0 : ℝ) ∈ uIcc (Real.sin x) (Real.sin y) := mem_uIcc_of_le hx0 hy0
  obtain ⟨z, hz, hsin⟩ := intermediate_value_uIcc Real.continuous_sin.continuousOn hzero
  have hmem : z ∈ uIoo a b := ordConnected_Ioo.uIcc_subset hx hy hz
  exact h z hmem hsin

theorem cos_image_uIcc (h : ∀ x ∈ uIoo a b, Real.sin x ≠ 0) :
    Real.cos '' uIcc a b = uIcc (Real.cos a) (Real.cos b) := by
  have hdiff : ∀ s : Set ℝ, DifferentiableOn ℝ Real.cos s := fun s =>
    Real.differentiable_cos.differentiableOn
  have hinner : interior (uIcc a b) = uIoo a b := interior_Icc
  apply Subset.antisymm
  · rcases sin_sign_of_ne_zero h with hpos | hneg
    · apply AntitoneOn.image_uIcc_subset
      apply antitoneOn_of_deriv_nonpos (convex_uIcc a b) Real.continuous_cos.continuousOn (hdiff _)
      intro x hx
      rw [Real.deriv_cos]
      linarith [hpos x (hinner ▸ hx)]
    · apply MonotoneOn.image_uIcc_subset
      apply monotoneOn_of_deriv_nonneg (convex_uIcc a b) Real.continuous_cos.continuousOn (hdiff _)
      intro x hx
      rw [Real.deriv_cos]
      linarith [hneg x (hinner ▸ hx)]
  · exact intermediate_value_uIcc Real.continuous_cos.continuousOn

theorem eq_of_cos_mem_uIcc (hx : Real.sin x = 0) (h : Real.cos x ∈ uIcc (Real.cos a) (Real.cos b)) :
    (Real.cos a = Real.cos x ∧ Real.sin a = Real.sin x) ∨
      (Real.cos b = Real.cos x ∧ Real.sin b = Real.sin x) := by
  have hsin : ∀ y, Real.cos y = Real.cos x → Real.sin y = Real.sin x := by
    intro y hy
    have hsq := Real.sin_sq_add_cos_sq y
    have hsq' := Real.sin_sq_add_cos_sq x
    rw [hx] at hsq' ⊢
    have hzero : Real.sin y ^ 2 = 0 := by
      rw [hy] at hsq
      linarith
    exact pow_eq_zero_iff two_ne_zero |>.mp hzero
  -- Where the sine is zero the cosine is extreme, so it lies between two values as one of them.
  have hone : Real.cos x = 1 ∨ Real.cos x = -1 := by
    rw [← sq_eq_one_iff]
    linarith [Real.sin_sq_add_cos_sq x, pow_eq_zero_iff two_ne_zero |>.mpr hx]
  have hcos : Real.cos a = Real.cos x ∨ Real.cos b = Real.cos x := by
    rw [mem_uIcc] at h
    rcases hone with hone | hone
    · rw [hone] at h ⊢
      rcases h with h | h
      · exact .inr (le_antisymm (Real.cos_le_one b) h.2)
      · exact .inl (le_antisymm (Real.cos_le_one a) h.2)
    · rw [hone] at h ⊢
      rcases h with h | h
      · exact .inl (le_antisymm h.1 (Real.neg_one_le_cos a))
      · exact .inr (le_antisymm h.1 (Real.neg_one_le_cos b))
  exact hcos.imp (fun h => ⟨h, hsin a h⟩) fun h => ⟨h, hsin b h⟩

theorem middle_mem_uIcc (a b : ℝ) : (a + b) / 2 ∈ uIcc a b := by
  rw [mem_uIcc]
  rcases le_total a b with hab | hab
  · exact .inl ⟨by linarith, by linarith⟩
  · exact .inr ⟨by linarith, by linarith⟩

theorem mem_uIoo_iff : x ∈ uIoo a b ↔ |x - (a + b) / 2| < |a - b| / 2 := by
  rcases le_total a b with hab | hab
  · rw [uIoo_of_le hab, abs_of_nonpos (sub_nonpos.mpr hab), abs_lt, mem_Ioo]
    constructor <;> rintro ⟨hlow, hhigh⟩ <;> constructor <;> linarith
  · rw [uIoo_of_ge hab, abs_of_nonneg (sub_nonneg.mpr hab), abs_lt, mem_Ioo]
    constructor <;> rintro ⟨hlow, hhigh⟩ <;> constructor <;> linarith

theorem abs_sub_lt_of_mem_uIoo {y : ℝ} (hx : x ∈ uIoo a b) (hy : y ∈ uIcc a b) :
    |y - x| < |a - b| := by
  have hlength : max a b - min a b = |a - b| := max_sub_min_eq_abs' a b
  obtain ⟨hlow, hhigh⟩ := hx
  obtain ⟨hlow', hhigh'⟩ := hy
  change min a b < x at hlow
  change x < max a b at hhigh
  change min a b ≤ y at hlow'
  change y ≤ max a b at hhigh'
  rw [abs_lt]
  constructor <;> linarith

/-- If what lies between the start and another place covers at most a full turn, there is no zero of
the sine on the way but that place. -/
theorem eq_of_cos_image_eq {z : ℝ} (hab : |a - b| ≤ 2 * Real.pi) (hz : z ∈ uIcc a b)
    (h : Real.cos '' uIcc a b = uIcc (Real.cos a) (Real.cos z)) (hx : x ∈ uIoo a b)
    (hsin : Real.sin x = 0) : x = z := by
  have hmem : Real.cos x ∈ uIcc (Real.cos a) (Real.cos z) := by
    rw [← h]
    exact ⟨x, Ioo_subset_Icc_self hx, rfl⟩
  have heq : ∀ y ∈ uIcc a b, Real.cos y = Real.cos x → Real.sin y = Real.sin x → y = x :=
    fun y hy hcos hsin =>
      angle_eq_of_cos_sin hcos hsin ((abs_sub_lt_of_mem_uIoo hx hy).trans_le hab)
  rcases eq_of_cos_mem_uIcc hsin hmem with ⟨hcos, hsin'⟩ | ⟨hcos, hsin'⟩
  · exact absurd (heq a left_mem_uIcc hcos hsin' ▸ hx) left_notMem_uIoo
  · exact (heq z hz hcos hsin').symm

theorem cos_image_eq_iff (hab : |a - b| ≤ 2 * Real.pi) :
    Real.cos '' uIcc a b = uIcc (Real.cos a) (Real.cos b) ↔ ∀ x ∈ uIoo a b, Real.sin x ≠ 0 := by
  constructor
  · intro h x hx hsin
    obtain rfl := eq_of_cos_image_eq hab right_mem_uIcc h hx hsin
    exact right_notMem_uIoo hx
  · exact cos_image_uIcc

theorem exists_sin_eq_zero (h : Real.pi < |a - b|) : ∃ x ∈ uIoo a b, Real.sin x = 0 := by
  have hpi := Real.pi_pos
  have hlength : max a b - min a b = |a - b| := max_sub_min_eq_abs' a b
  have hlow := Int.lt_floor_add_one (min a b / Real.pi)
  have hhigh := Int.floor_le (min a b / Real.pi)
  rw [div_lt_iff₀ hpi] at hlow
  rw [le_div_iff₀ hpi] at hhigh
  refine ⟨(⌊min a b / Real.pi⌋ + 1 : ℤ) * Real.pi, ⟨?_, ?_⟩, Real.sin_int_mul_pi _⟩
  · push_cast
    exact hlow
  · push_cast
    rw [add_mul, one_mul]
    change _ < max a b
    linarith

theorem uIcc_eq_union {z : ℝ} (h : z ∈ uIcc a b) : uIcc a b = uIcc a z ∪ uIcc z b :=
  Subset.antisymm uIcc_subset_uIcc_union_uIcc
    (union_subset (uIcc_subset_uIcc left_mem_uIcc h) (uIcc_subset_uIcc h right_mem_uIcc))

theorem uIoo_subset_of_mem {y z : ℝ} (hy : y ∈ uIcc a b) (hz : z ∈ uIcc a b) :
    uIoo y z ⊆ uIoo a b :=
  Ioo_subset_Ioo (le_min hy.1 hz.1) (max_le hy.2 hz.2)

theorem cos_eq_of_middle (h : Real.sin ((a + b) / 2) = 0) : Real.cos b = Real.cos a := by
  have hb : b = (a + b) / 2 + (b - a) / 2 := by ring
  have ha : a = (a + b) / 2 - (b - a) / 2 := by ring
  calc Real.cos b = Real.cos ((a + b) / 2) * Real.cos ((b - a) / 2) := by
        rw [congrArg Real.cos hb, Real.cos_add, h]
        ring
    _ = Real.cos a := by
        rw [congrArg Real.cos ha, Real.cos_sub, h]
        ring

/-- The way to the middle and on is covered by what lies between the start and the middle exactly if
the sine has no zero on the way, except in the middle. -/
theorem cos_image_eq_iff_of_middle (hlong : Real.pi < |a - b|) (hab : |a - b| ≤ 2 * Real.pi) :
    Real.cos '' uIcc a b = uIcc (Real.cos a) (Real.cos ((a + b) / 2)) ↔
      ∀ x ∈ uIoo a b, Real.sin x = 0 → x = (a + b) / 2 := by
  have hmem := middle_mem_uIcc a b
  constructor
  · exact fun h x => eq_of_cos_image_eq hab hmem h
  · intro h
    -- so long a way passes a zero, which then is the middle
    obtain ⟨x, hx, hsin⟩ := exists_sin_eq_zero hlong
    rw [h x hx hsin] at hsin
    have hfirst : ∀ y ∈ uIoo a ((a + b) / 2), Real.sin y ≠ 0 := fun y hy hzero =>
      right_notMem_uIoo (h y (uIoo_subset_of_mem left_mem_uIcc hmem hy) hzero ▸ hy)
    have hsecond : ∀ y ∈ uIoo ((a + b) / 2) b, Real.sin y ≠ 0 := fun y hy hzero =>
      left_notMem_uIoo (h y (uIoo_subset_of_mem hmem right_mem_uIcc hy) hzero ▸ hy)
    rw [uIcc_eq_union hmem, image_union, cos_image_uIcc hfirst, cos_image_uIcc hsecond,
      cos_eq_of_middle hsin, uIcc_comm (Real.cos _) (Real.cos a), union_self]

theorem cos_add_sign_mul {σ : ℝ} (hσ : σ = 1 ∨ σ = -1) (x : ℝ) :
    Real.cos (x + σ * (Real.pi / 2)) = -(σ * Real.sin x) := by
  rcases hσ with rfl | rfl
  · rw [one_mul, one_mul, Real.cos_add_pi_div_two]
  · rw [neg_one_mul, neg_one_mul, ← sub_eq_add_neg, Real.cos_sub_pi_div_two, neg_neg]

theorem abs_sign_mul_add_sub {σ : ℝ} (hσ : σ = 1 ∨ σ = -1) (a b c : ℝ) :
    |σ * a + c - (σ * b + c)| = |a - b| := by
  rw [add_sub_add_right_eq_sub, ← mul_sub, abs_sign_mul hσ]

theorem uIoo_sign_mul_add {σ : ℝ} (hσ : σ = 1 ∨ σ = -1) (a b c : ℝ) :
    uIoo (σ * a + c) (σ * b + c) = (fun x => σ * x + c) '' uIoo a b := by
  have hmem : ∀ x, σ * x + c ∈ uIoo (σ * a + c) (σ * b + c) ↔ x ∈ uIoo a b := by
    intro x
    have hmiddle : σ * x + c - (σ * a + c + (σ * b + c)) / 2 = σ * (x - (a + b) / 2) := by ring
    rw [mem_uIoo_iff, mem_uIoo_iff, hmiddle, abs_sign_mul_add_sub hσ, abs_sign_mul hσ]
  ext y
  constructor
  · intro hy
    have hback : σ * (σ * (y - c)) + c = y := by
      rw [sign_mul_sign_mul hσ, sub_add_cancel]
    exact ⟨σ * (y - c), (hmem _).mp (by rwa [hback]), hback⟩
  · rintro ⟨x, hx, rfl⟩
    exact (hmem x).mpr hx

end Cosines

namespace Point

variable {p q : Point ℝ} {φ x y : ℝ}

noncomputable def along (p : Point ℝ) (φ x : ℝ) : Point ℝ := onUnitCircle φ * ⟨x, 0⟩ + p

theorem along_zero : p.along φ 0 = p := by
  ext <;> simp [along]

theorem along_injective (p : Point ℝ) (φ : ℝ) : Function.Injective (p.along φ) := by
  intro x y h
  have hsq := Real.sin_sq_add_cos_sq φ
  rw [along, along, onUnitCircle_real, Point.ext_iff] at h
  simp only [add_x, add_y, mul_x, mul_y] at h
  linear_combination Real.cos φ * h.1 + Real.sin φ * h.2 - (x - y) * hsq

def segment (p q : Point ℝ) : Set (Point ℝ) :=
  (fun t => ⟨p.x + t * (q.x - p.x), p.y + t * (q.y - p.y)⟩) '' Icc (0 : ℝ) 1

/-- What the lines from a point to each of the next ones cover. -/
def trail : Point ℝ → List (Point ℝ) → Set (Point ℝ)
  | _, [] => ∅
  | p, q :: rest => p.segment q ∪ trail q rest

theorem segment_along :
    (p.along φ x).segment (p.along φ y) = p.along φ '' uIcc x y := by
  rw [← segment_eq_uIcc, segment_eq_image', image_image, segment]
  refine image_congr fun t _ => ?_
  ext
  · simp only [along, onUnitCircle_real, add_x, mul_x, smul_eq_mul]
    ring
  · simp only [along, onUnitCircle_real, add_y, mul_y, smul_eq_mul]
    ring

theorem segment_comm (p q : Point ℝ) : p.segment q = q.segment p := by
  have hback : ∀ p q : Point ℝ, p.segment q ⊆ q.segment p := by
    rintro p q - ⟨t, ⟨h0, h1⟩, rfl⟩
    refine ⟨1 - t, ⟨sub_nonneg.mpr h1, sub_le_self 1 h0⟩, ?_⟩
    ext
    · dsimp only
      ring
    · dsimp only
      ring
  exact Subset.antisymm (hback p q) (hback q p)

theorem trail_one : trail p [q] = p.segment q := by
  rw [trail, trail, union_empty]

theorem trail_back : trail p [q, p] = p.segment q := by
  rw [trail, trail_one, segment_comm q p, union_self]

end Point

namespace Affine

variable {m : Affine ℝ} {e : Ellipse ℝ} {a : Axes ℝ} {φ r σ c s f : ℝ}

/-- Whether a point that runs along an ellipse stands still in the image. -/
def StillAt (m : Affine ℝ) (e : Ellipse ℝ) (θ : ℝ) : Prop :=
  m.apply (e.velocity θ + e.center) = m.apply e.center

def IsConstant (m : Affine ℝ) : Prop := m.a = 0 ∧ m.b = 0 ∧ m.c = 0 ∧ m.d = 0

/-- What it means that an ellipse is taken to a stretch of a line: a point that runs along it goes
up and down like a cosine. -/
structure Flattens (m : Affine ℝ) (e : Ellipse ℝ) (φ r σ c : ℝ) : Prop where
  sign : σ = 1 ∨ σ = -1
  apply_point : ∀ θ, m.apply (e.point θ) =
    (m.apply e.center).along φ (r * Real.cos (σ * θ + c))

theorem row_eq_zero {u v : ℝ} (hx : 0 < e.radii.x) (hy : 0 < e.radii.y)
    (hu : u * (Real.cos e.rotation * e.radii.x) + v * (Real.sin e.rotation * e.radii.x) = 0)
    (hv : u * (-Real.sin e.rotation * e.radii.y) + v * (Real.cos e.rotation * e.radii.y) = 0) :
    u = 0 ∧ v = 0 := by
  have hsq := Real.sin_sq_add_cos_sq e.rotation
  have hu' : u * Real.cos e.rotation + v * Real.sin e.rotation = 0 :=
    mul_right_cancel₀ hx.ne' (by linear_combination hu)
  have hv' : u * -Real.sin e.rotation + v * Real.cos e.rotation = 0 :=
    mul_right_cancel₀ hy.ne' (by linear_combination hv)
  constructor
  · linear_combination Real.cos e.rotation * hu' - Real.sin e.rotation * hv' - u * hsq
  · linear_combination Real.sin e.rotation * hu' + Real.cos e.rotation * hv' - v * hsq

theorem isConstant_of_apply_point (hx : 0 < e.radii.x) (hy : 0 < e.radii.y)
    (h : ∀ θ, m.apply (e.point θ) = m.apply e.center) : m.IsConstant := by
  have hfirst := h 0
  have hsecond := h (Real.pi / 2)
  rw [m.apply_point, Point.ext_iff, Point.add_x, Point.add_y, add_eq_right, add_eq_right]
    at hfirst hsecond
  simp only [Matrix2.circlePoint, onAxes, Real.cos_zero, Real.sin_zero, Real.cos_pi_div_two,
    Real.sin_pi_div_two, mul_zero, mul_one, add_zero, zero_add] at hfirst hsecond
  obtain ⟨ha, hc⟩ := row_eq_zero hx hy hfirst.1 hsecond.1
  obtain ⟨hb, hd⟩ := row_eq_zero hx hy hfirst.2 hsecond.2
  exact ⟨ha, hb, hc, hd⟩

theorem minor_eq_zero (hsingular : m.a * m.d = m.b * m.c)
    (h : IsAxes (m.onAxes e.radii e.rotation) a) : a.minor = 0 := by
  obtain ⟨σ, -, hσ, hdet, -⟩ := h.exists_turn
  rw [det_onAxes, sub_eq_zero.mpr hsingular, zero_mul] at hdet
  have hproduct := (mul_eq_zero.mp hdet.symm).resolve_left (ne_zero_of_sign hσ)
  rcases mul_eq_zero.mp hproduct with hmajor | hminor
  · exact le_antisymm (h.minor_le.trans hmajor.le) h.minor_nonneg
  · exact hminor

/-- A transform with a singular linear part takes every ellipse to a stretch of a line. -/
theorem exists_flattens (hsingular : m.a * m.d = m.b * m.c)
    (h : IsAxes (m.onAxes e.radii e.rotation) a) :
    ∃ σ c, m.Flattens e a.angle a.major σ c := by
  have hminor := minor_eq_zero hsingular h
  obtain ⟨σ, c, hσ, -, hcircle⟩ := h.exists_turn
  refine ⟨σ, c, hσ, fun θ => ?_⟩
  rw [m.apply_point, hcircle, hminor, zero_mul]
  rfl

namespace Flattens

theorem stillAt_iff (h : m.Flattens e φ r σ c) (hr : r ≠ 0) (θ : ℝ) :
    m.StillAt e θ ↔ Real.sin (σ * θ + c) = 0 := by
  have hsign := ne_zero_of_sign h.sign
  have hangle : σ * (θ + Real.pi / 2) + c = σ * θ + c + σ * (Real.pi / 2) := by ring
  rw [StillAt, e.velocity_add_center, h.apply_point, hangle, cos_add_sign_mul h.sign]
  calc _ ↔ (m.apply e.center).along φ (r * -(σ * Real.sin (σ * θ + c))) =
          (m.apply e.center).along φ 0 := by rw [Point.along_zero]
    _ ↔ r * -(σ * Real.sin (σ * θ + c)) = 0 := (Point.along_injective _ φ).eq_iff
    _ ↔ Real.sin (σ * θ + c) = 0 := by simp [hr, hsign]

theorem isConstant_iff (h : m.Flattens e φ r σ c) (hx : 0 < e.radii.x) (hy : 0 < e.radii.y) :
    r = 0 ↔ m.IsConstant := by
  constructor
  · intro hr
    apply isConstant_of_apply_point hx hy
    intro θ
    rw [h.apply_point, hr, zero_mul, Point.along_zero]
  · rintro ⟨ha, hb, hc, hd⟩
    have hconstant : ∀ p, m.apply p = m.apply e.center := by
      intro p
      rw [apply, apply, ha, hb, hc, hd]
      simp
    -- at some angle the cosine is one
    have hpoint := h.apply_point (σ * -c)
    rw [hconstant, sign_mul_sign_mul h.sign, neg_add_cancel, Real.cos_zero, mul_one] at hpoint
    exact Point.along_injective _ φ (hpoint.symm.trans Point.along_zero.symm)

theorem image_arc (h : m.Flattens e φ r σ c) :
    m.apply '' (e.point '' uIcc s f) = (m.apply e.center).along φ ''
      ((r * ·) '' (Real.cos '' uIcc (σ * s + c) (σ * f + c))) := by
  have hway : uIcc (σ * s + c) (σ * f + c) = (fun θ => σ * θ + c) '' uIcc s f := by
    rw [← image_add_const_uIcc, ← image_const_mul_uIcc, image_image]
  rw [hway]
  simp only [image_image]
  exact image_congr fun θ _ => h.apply_point θ

theorem segment_eq_image_iff (h : m.Flattens e φ r σ c) (z : ℝ) :
    (m.apply (e.point s)).segment (m.apply (e.point z)) = m.apply '' (e.point '' uIcc s f) ↔
      r = 0 ∨ Real.cos '' uIcc (σ * s + c) (σ * f + c) =
        uIcc (Real.cos (σ * s + c)) (Real.cos (σ * z + c)) := by
  rw [h.image_arc, h.apply_point, h.apply_point, Point.segment_along, ← image_const_mul_uIcc,
    (Point.along_injective _ φ).image_injective.eq_iff]
  by_cases hr : r = 0
  · simp [hr]
  · rw [(mul_right_injective₀ hr).image_injective.eq_iff]
    simp [hr, eq_comm]

theorem covers_ends_iff (h : m.Flattens e φ r σ c) (hle : |s - f| ≤ 2 * Real.pi) :
    (m.apply (e.point s)).segment (m.apply (e.point f)) = m.apply '' (e.point '' uIcc s f) ↔
      r = 0 ∨ ∀ θ ∈ uIoo s f, ¬ m.StillAt e θ := by
  have hlength := abs_sign_mul_add_sub h.sign s f c
  rw [h.segment_eq_image_iff, cos_image_eq_iff (hlength ▸ hle), uIoo_sign_mul_add h.sign,
    forall_mem_image]
  refine or_congr_right' fun hr => ?_
  simp only [h.stillAt_iff hr, ne_eq]

/-- A line between the images of the start and the middle of more than half a turn covers the image
of an arc exactly if the point turns back in the middle only. -/
theorem covers_middle_iff (h : m.Flattens e φ r σ c) (hlong : Real.pi < |s - f|)
    (hle : |s - f| ≤ 2 * Real.pi) :
    (m.apply (e.point s)).segment (m.apply (e.point ((s + f) / 2))) =
        m.apply '' (e.point '' uIcc s f) ↔
      r = 0 ∨ ∀ θ ∈ uIoo s f, m.StillAt e θ → θ = (s + f) / 2 := by
  have hlength := abs_sign_mul_add_sub h.sign s f c
  have hmiddle : σ * ((s + f) / 2) + c = (σ * s + c + (σ * f + c)) / 2 := by ring
  rw [h.segment_eq_image_iff, hmiddle,
    cos_image_eq_iff_of_middle (hlength ▸ hlong) (hlength ▸ hle), ← hmiddle,
    uIoo_sign_mul_add h.sign, forall_mem_image]
  refine or_congr_right' fun hr => ?_
  simp only [h.stillAt_iff hr, add_left_inj, mul_right_inj' (ne_zero_of_sign h.sign)]

end Flattens

end Affine

end Linework
