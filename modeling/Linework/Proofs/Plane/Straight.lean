import Linework.Proofs.Number.Lengths
import Linework.Proofs.Plane.Turn
import Linework.Canvas.Oval
import Linework.Proofs.Act

/-!
# Corners along one line

Whether the sides of a corner are along one line is decided by a rounded cosine. Between vectors
of whole coordinates that are along one line it is one of a few doubles next to one or minus one.
The arc cosines of those that are less than one in size are far above the tolerance for a corner
to have none, so that only the others are taken for straight. Nothing is rounded where the lengths
are whole numbers too, such as along an axis.
-/

set_option autoImplicit false

namespace Linework

open Scalar Binary64

section Cosine

variable {α : Type} [Scalar α]

def Point.sizeOfAngle (cosine : α) (positive : Bool) : α :=
  let angle := acos (clamp cosine (-whole 1) (whole 1))
  magnitude (if positive then angle else -angle)

namespace Fillet

def isFlat (theta : α) : Bool :=
  blt theta collinearTolerance || blt (pi - theta) collinearTolerance

variable {p0 p1 p2 : Point α} {r : α}

theorem of?_eq_none_iff : of? p0 p1 p2 r = .ok none ↔
    (isZero r || p0.beq p1 || p1.beq p2) = true ∨
      ∃ cosine, (p0 - p1).cosineTo (p2 - p1) = .ok cosine ∧
        isFlat (Point.sizeOfAngle cosine (ble (whole 0)
          ((p0 - p1).x * (p2 - p1).y - (p0 - p1).y * (p2 - p1).x))) = true := by
  rw [of?]
  by_cases hnone : (isZero r || p0.beq p1 || p1.beq p2) = true
  · simp [hnone]
  rw [if_neg hnone, or_iff_right hnone, Point.angleTo_eq]
  rcases (p0 - p1).cosineTo (p2 - p1) with e | cosine
  · simp [error_bind]
  · simp only [ok_bind, Except.ok.injEq, exists_eq_left']
    change (if isFlat (Point.sizeOfAngle cosine _) = true then _ else _) = _ ↔ _
    split
    · next hflat => exact ⟨fun _ => hflat, fun _ => rfl⟩
    · next hflat =>
      refine ⟨fun h => ?_, fun h => absurd h hflat⟩
      obtain ⟨f, -, hf⟩ := exists_of_bind_ok h
      cases hf

end Fillet

end Cosine

/-- The double that is `k` places above the eighth one below one. -/
def nearOne (negative : Bool) (k : ℕ) : Float :=
  ofMagnitudeWord negative (1023 * 2 ^ 52 - 8 + k)

/-- Of the doubles next to one and minus one, those less than one in size have an arc cosine that
makes a corner, and the others have not. -/
theorem isFlat_nearOne : ∀ (k : Fin 13) (negative positive : Bool),
    Fillet.isFlat (Point.sizeOfAngle (nearOne negative k) positive) = decide (8 ≤ k.val) ∧
      ble (whole 1) (magnitude (nearOne negative k)) = decide (8 ≤ k.val) := by
  decide +kernel

theorem exists_nearOne {x : Float} {v : ℚ} (hx : Denotes x v) (hlow : 1 - 8 / 2 ^ 53 ≤ |v|)
    (hhigh : |v| ≤ 1 + 8 / 2 ^ 53) :
    ∃ negative, ∃ k : Fin 13, x = nearOne negative k ∧ (1 ≤ |v| → 8 ≤ k.val) := by
  obtain ⟨negative, m, e, hdatum, rfl⟩ := hx
  have hfits := (fits_of_datum hdatum).1
  rw [abs_sgn_mul, abs_of_nonneg (by positivity)] at hlow hhigh ⊢
  have hunit := hfits.isUnitExponent
  have hsmall := hfits.small
  rw [← ofMagnitudeWord_of_datum hdatum]
  refine ⟨negative, ?_⟩
  -- The unit below one is half of that from one upwards; the words go on across.
  rcases lt_or_ge ((m : ℚ) * 2 ^ e) 1 with hlt | hge
  · have he : e = -53 := hunit.unique ⟨by omega, by simpa using hlt, .inr (by
      norm_num at hlow ⊢
      linarith)⟩
    subst he
    have hunits : (2 : ℚ) ^ (-53 : ℤ) = 1 / 9007199254740992 := by norm_num
    have hm : (9007199254740984 : ℚ) ≤ m := by
      rw [hunits] at hlow
      linarith
    have hm' : 9007199254740984 ≤ m := by exact_mod_cast hm
    have hword : wordOf m (-53) = 1023 * 2 ^ 52 - 8 + (m - 9007199254740984) := by
      rw [wordOf]
      omega
    exact ⟨⟨m - 9007199254740984, by omega⟩, by rw [hword]; rfl, fun hone => absurd hlt hone.not_gt⟩
  · have he : e = -52 := hunit.unique ⟨by omega, by
      norm_num at hhigh ⊢
      linarith, .inr (by simpa using hge)⟩
    subst he
    have hunits : (2 : ℚ) ^ (-52 : ℤ) = 1 / 4503599627370496 := by norm_num
    rw [hunits] at hge hhigh
    have hm : (4503599627370496 : ℚ) ≤ m := by linarith
    have hm' : (m : ℚ) ≤ 4503599627370500 := by linarith
    have hlow' : 4503599627370496 ≤ m := by exact_mod_cast hm
    have hhigh' : m ≤ 4503599627370500 := by exact_mod_cast hm'
    have hword : wordOf m (-52) = 1023 * 2 ^ 52 - 8 + (m - 4503599627370488) := by
      rw [wordOf]
      omega
    refine ⟨⟨m - 4503599627370488, by omega⟩, by rw [hword]; rfl, fun _ => ?_⟩
    change 8 ≤ m - 4503599627370488
    omega

theorem ble_one_of_denotes {x : Float} {s : ℤ} (hx : Denotes x s) (hs : |s| = 1) :
    ble (whole 1) (magnitude x) = true := by
  have hone : |(s : ℚ)| = 1 := by exact_mod_cast hs
  obtain ⟨negative, k, rfl, hk⟩ := exists_nearOne hx (by rw [hone]; norm_num)
    (by rw [hone]; norm_num)
  rw [(isFlat_nearOne k negative true).2]
  exact decide_eq_true (hk hone.ge)

theorem exists_nearOne_of_quotient {x : Float} {d w : ℚ} (h : IsRounded (d / w) x) (hd : d ≠ 0)
    (hw : Within 5 |(w : ℝ)| |(d : ℝ)|) : ∃ negative, ∃ k : Fin 13, x = nearOne negative k := by
  have hlow : |d| * (1 - 1 / 2 ^ 53) ^ 5 ≤ |w| := by
    rw [← Rat.cast_le (K := ℝ)]
    push_cast
    exact hw.low
  have hhigh : |w| ≤ |d| * (1 + 1 / 2 ^ 53) ^ 5 := by
    rw [← Rat.cast_le (K := ℝ)]
    push_cast
    exact hw.high
  have hwpos : 0 < |w| := (mul_pos (abs_pos.mpr hd) (by norm_num)).trans_le hlow
  have hratio : 1 - 6 / 2 ^ 53 ≤ |d / w| ∧ |d / w| ≤ 1 + 6 / 2 ^ 53 := by
    rw [abs_div, le_div_iff₀ hwpos, div_le_iff₀ hwpos]
    norm_num at hlow hhigh ⊢
    constructor <;> linarith
  obtain ⟨hfrom, hto⟩ := hratio
  obtain ⟨v, hv, hnear⟩ := h.exists_near (hfrom.trans' (by norm_num)) (hto.trans (by norm_num))
  obtain ⟨hbelow, habove⟩ := abs_le.mp ((abs_abs_sub_abs_le v (d / w)).trans hnear)
  have hlow' : 1 - 8 / 2 ^ 53 ≤ |v| := by
    norm_num at hfrom hto hbelow ⊢
    linarith
  have hhigh' : |v| ≤ 1 + 8 / 2 ^ 53 := by
    norm_num at hfrom hto habove ⊢
    linarith
  obtain ⟨negative, k, hk, -⟩ := exists_nearOne hv hlow' hhigh'
  exact ⟨negative, k, hk⟩

structure Point.IsWhole (u : Point Float) (m : Point ℤ) : Prop where
  x : Denotes u.x m.x
  y : Denotes u.y m.y
  small_x : |m.x| < 2 ^ 21
  small_y : |m.y| < 2 ^ 21

section Vectors

variable {u v : Point Float} {m n : Point ℤ}

def squaredLength (m : Point ℤ) : ℤ := m.x ^ 2 + m.y ^ 2

theorem Point.IsWhole.squaredLength_lt (h : u.IsWhole m) : squaredLength m < 2 ^ 43 := by
  have hx := sq_lt_sq' (neg_lt_of_abs_lt h.small_x) (lt_of_abs_lt h.small_x)
  have hy := sq_lt_sq' (neg_lt_of_abs_lt h.small_y) (lt_of_abs_lt h.small_y)
  rw [squaredLength]
  linarith

theorem length_of_denotes {l : ℚ} (h : Denotes (hypot u.x u.y) l) :
    u.length = .ok (hypot u.x u.y) := by
  have hfinite : Scalar.isFinite (hypot u.x u.y) = true := h.isFinite
  simp [Point.length, hfinite]

theorem Point.IsWhole.exists_length (h : u.IsWhole m) (hm : 0 < squaredLength m) :
    ∃ (size : Float) (l : ℚ), u.length = .ok size ∧ Denotes size l ∧
      Within 2 |(l : ℝ)| √(squaredLength m) := by
  have hlow : (1 : ℚ) ≤ (m.x : ℚ) ^ 2 + (m.y : ℚ) ^ 2 := by exact_mod_cast hm
  have hhigh : (m.x : ℚ) ^ 2 + (m.y : ℚ) ^ 2 ≤ 2 ^ 100 := by
    exact_mod_cast h.squaredLength_lt.le.trans (by norm_num)
  obtain ⟨l, hl, hnear⟩ := exists_within_hypot h.x h.y hlow hhigh
  exact ⟨hypot u.x u.y, l, length_of_denotes hl, hl, by simpa [squaredLength] using hnear⟩

theorem Point.IsWhole.exists_length_eq (h : u.IsWhole m) {k : ℕ}
    (hk : squaredLength m = (k : ℤ) ^ 2) :
    ∃ size : Float, u.length = .ok size ∧ Denotes size (k : ℤ) ∧ |(k : ℤ)| < 2 ^ 22 := by
  have hsmall : |(k : ℤ)| < 2 ^ 22 := by
    have hlt := hk ▸ h.squaredLength_lt
    exact abs_lt_of_sq_lt_sq (hlt.trans (by norm_num)) (by norm_num)
  have hsq : (m.x : ℚ) ^ 2 + (m.y : ℚ) ^ 2 = (k : ℚ) ^ 2 := by exact_mod_cast hk
  have hk53 : k < 2 ^ 53 := by
    have hlt : (k : ℤ) < 2 ^ 53 := (le_abs_self _).trans_lt (hsmall.trans (by norm_num))
    exact_mod_cast hlt
  have hlength := Elementary.denotes_hypot h.x h.y hk53 hsq
  exact ⟨hypot u.x u.y, length_of_denotes hlength, hlength, hsmall⟩

theorem sq_dot_eq (h : m.x * n.y = m.y * n.x) :
    (m.x * n.x + m.y * n.y) ^ 2 = squaredLength m * squaredLength n := by
  rw [squaredLength, squaredLength]
  linear_combination (m.y * n.x - m.x * n.y) * h

/-- Between vectors along one line the product of the lengths is the size of that of the
vectors. -/
theorem abs_dot_eq (h : m.x * n.y = m.y * n.x) :
    |((m.x * n.x + m.y * n.y : ℤ) : ℝ)| = √(squaredLength m) * √(squaredLength n) := by
  have hpos : 0 ≤ squaredLength m := by
    rw [squaredLength]
    positivity
  rw [← Real.sqrt_mul (by exact_mod_cast hpos), ← Real.sqrt_sq_eq_abs]
  congr 1
  exact_mod_cast sq_dot_eq h

theorem denotes_mul {x y : Float} {a b : ℤ} (hx : Denotes x a) (hy : Denotes y b)
    (ha : |a| < 2 ^ 21) (hb : |b| < 2 ^ 21) : Denotes (x * y) (a * b : ℤ) ∧ |a * b| < 2 ^ 42 := by
  have hab : |a * b| < 2 ^ 42 := by
    rw [abs_mul]
    exact mul_lt_mul'' ha hb (abs_nonneg a) (abs_nonneg b)
  have hround : IsRounded ((a * b : ℤ) : ℚ) (x * y) := by
    push_cast
    exact isRounded_mul hx hy
  exact ⟨hround.denotes_int (hab.trans (by norm_num)), hab⟩

theorem Point.IsWhole.denotes_dot (hu : u.IsWhole m) (hv : v.IsWhole n) :
    Denotes (u.x * v.x + u.y * v.y) (m.x * n.x + m.y * n.y : ℤ) ∧
      |m.x * n.x + m.y * n.y| < 2 ^ 43 := by
  obtain ⟨hx, hxsmall⟩ := denotes_mul hu.x hv.x hu.small_x hv.small_x
  obtain ⟨hy, hysmall⟩ := denotes_mul hu.y hv.y hu.small_y hv.small_y
  have hsmall : |m.x * n.x + m.y * n.y| < 2 ^ 43 := by
    have htriangle := abs_add_le (m.x * n.x) (m.y * n.y)
    linarith
  have hround : IsRounded ((m.x * n.x + m.y * n.y : ℤ) : ℚ) (u.x * v.x + u.y * v.y) := by
    rw [Int.cast_add]
    exact isRounded_add hx hy
  exact ⟨hround.denotes_int (hsmall.trans (by norm_num)), hsmall⟩

theorem exists_cosineTo (hu : u.IsWhole m) (hv : v.IsWhole n) (hm : 0 < squaredLength m)
    (hn : 0 < squaredLength n) (h : m.x * n.y = m.y * n.x) :
    ∃ negative, ∃ k : Fin 13, u.cosineTo v = .ok (nearOne negative k) := by
  obtain ⟨sizeU, l, hsizeU, hl, hwithin⟩ := hu.exists_length hm
  obtain ⟨sizeV, l', hsizeV, hl', hwithin'⟩ := hv.exists_length hn
  obtain ⟨hdot, hsmall⟩ := hu.denotes_dot hv
  have hlengths := abs_dot_eq h
  generalize m.x * n.x + m.y * n.y = d at hdot hsmall hlengths
  have hroots : 0 < √(squaredLength m : ℝ) ∧ 0 < √(squaredLength n : ℝ) :=
    ⟨Real.sqrt_pos.mpr (by exact_mod_cast hm), Real.sqrt_pos.mpr (by exact_mod_cast hn)⟩
  have hproduct := hwithin.mul hwithin' hroots.1 hroots.2
  rw [← hlengths, ← abs_mul, ← Rat.cast_mul] at hproduct
  have hd : d ≠ 0 := by
    rintro rfl
    have hzero := mul_pos hroots.1 hroots.2
    simp [← hlengths] at hzero
  have hone : 1 ≤ |(d : ℝ)| := by exact_mod_cast Int.one_le_abs hd
  have hmost : |(d : ℝ)| ≤ 2 ^ 99 := by exact_mod_cast hsmall.le.trans (by norm_num)
  obtain ⟨w, hw, hnear⟩ := (isRounded_mul hl hl').exists_within hproduct (by norm_num) hone hmost
  have hw0 : w ≠ 0 := by
    rintro rfl
    have hpos := hnear.pos (one_pos.trans_le hone)
    simp at hpos
  have hquotient : ∃ negative, ∃ k : Fin 13,
      (u.x * v.x + u.y * v.y) / (sizeU * sizeV) = nearOne negative k :=
    exists_nearOne_of_quotient (isRounded_div hdot hw hw0) (by exact_mod_cast hd) hnear
  obtain ⟨negative, k, hk⟩ := hquotient
  refine ⟨negative, k, ?_⟩
  rw [Point.cosineTo_eq hsizeU hsizeV (hw.isZero_iff.not.mpr hw0), hk]

theorem exists_cosineTo_of_lengths (hu : u.IsWhole m) (hv : v.IsWhole n) {j k : ℕ}
    (hj : squaredLength m = (j : ℤ) ^ 2) (hk : squaredLength n = (k : ℤ) ^ 2) (hj0 : 0 < j)
    (hk0 : 0 < k) (h : m.x * n.y = m.y * n.x) :
    ∃ cosine, u.cosineTo v = .ok cosine ∧ ble (whole 1) (magnitude cosine) = true := by
  obtain ⟨sizeU, hsizeU, hl, hsmall⟩ := hu.exists_length_eq hj
  obtain ⟨sizeV, hsizeV, hl', hsmall'⟩ := hv.exists_length_eq hk
  obtain ⟨hdot, -⟩ := hu.denotes_dot hv
  have hsq := sq_dot_eq h
  rw [hj, hk, ← mul_pow, sq_eq_sq_iff_eq_or_eq_neg] at hsq
  generalize m.x * n.x + m.y * n.y = d at hdot hsq
  have hproduct : Denotes (sizeU * sizeV) (j * k : ℤ) := by
    have hsize : |(j * k : ℤ)| < 2 ^ 53 := by
      rw [abs_mul]
      exact (mul_lt_mul'' hsmall hsmall' (abs_nonneg _) (abs_nonneg _)).trans (by norm_num)
    have hround : IsRounded ((j * k : ℤ) : ℚ) (sizeU * sizeV) := by
      rw [Int.cast_mul]
      exact isRounded_mul hl hl'
    exact hround.denotes_int hsize
  have hnonzero : ((j * k : ℤ) : ℚ) ≠ 0 := by
    have hpos : (0 : ℤ) < j * k := by positivity
    exact_mod_cast hpos.ne'
  have hone : ∃ s : ℤ, |s| = 1 ∧ (d : ℚ) / (j * k : ℤ) = s := by
    rcases hsq with rfl | rfl
    · exact ⟨1, rfl, by rw [div_self hnonzero, Int.cast_one]⟩
    · exact ⟨-1, rfl, by rw [Int.cast_neg (j * k : ℤ), neg_div, div_self hnonzero]; norm_cast⟩
  obtain ⟨s, hs, hquotient⟩ := hone
  have hround := isRounded_div hdot hproduct hnonzero
  rw [hquotient] at hround
  refine ⟨_, Point.cosineTo_eq hsizeU hsizeV (hproduct.isZero_iff.not.mpr hnonzero), ?_⟩
  exact ble_one_of_denotes (hround.denotes_int (by rw [hs]; norm_num)) hs

theorem exists_root (h : IsSquare (squaredLength m)) (hm : 0 < squaredLength m) :
    ∃ j : ℕ, 0 < j ∧ squaredLength m = (j : ℤ) ^ 2 := by
  obtain ⟨r, hr⟩ := h
  have hsq : squaredLength m = (r.natAbs : ℤ) ^ 2 := by
    rw [hr, Int.natAbs_sq, sq]
  refine ⟨r.natAbs, Int.natAbs_pos.mpr ?_, hsq⟩
  rintro rfl
  exact hm.ne' hr

end Vectors

structure Point.IsAt (p : Point Float) (a : Point ℤ) : Prop where
  x : whole? p.x = some a.x
  y : whole? p.y = some a.y
  small_x : |a.x| < 2 ^ 20
  small_y : |a.y| < 2 ^ 20

def AlongLine (a0 a1 a2 : Point ℤ) : Prop :=
  (a1.x - a0.x) * (a2.y - a1.y) = (a1.y - a0.y) * (a2.x - a1.x)

instance (a0 a1 a2 : Point ℤ) : Decidable (AlongLine a0 a1 a2) :=
  inferInstanceAs (Decidable (_ = _))

theorem AlongLine.cross {a0 a1 a2 : Point ℤ} (h : AlongLine a0 a1 a2) :
    (a0.x - a1.x) * (a2.y - a1.y) = (a0.y - a1.y) * (a2.x - a1.x) := by
  rw [AlongLine] at h
  linear_combination -h

section Points

variable {p q : Point Float} {a b : Point ℤ}

theorem denotes_sub {x y : Float} {j k : ℤ} (hx : Denotes x j) (hy : Denotes y k)
    (hj : |j| < 2 ^ 20) (hk : |k| < 2 ^ 20) :
    Denotes (x - y) (j - k : ℤ) ∧ |j - k| < 2 ^ 21 := by
  have hsmall : |j - k| < 2 ^ 21 := by
    have htriangle := abs_sub j k
    linarith
  have hround : IsRounded ((j - k : ℤ) : ℚ) (x - y) := by
    rw [Int.cast_sub]
    exact isRounded_sub hx hy
  exact ⟨hround.denotes_int (hsmall.trans (by norm_num)), hsmall⟩

theorem Point.IsAt.isWhole_sub (hp : p.IsAt a) (hq : q.IsAt b) :
    (p - q).IsWhole ⟨a.x - b.x, a.y - b.y⟩ := by
  obtain ⟨hx, hxsmall⟩ := denotes_sub (denotes_of_whole? hp.x) (denotes_of_whole? hq.x)
    hp.small_x hq.small_x
  obtain ⟨hy, hysmall⟩ := denotes_sub (denotes_of_whole? hp.y) (denotes_of_whole? hq.y)
    hp.small_y hq.small_y
  exact ⟨hx, hy, hxsmall, hysmall⟩

theorem Point.IsAt.beq (hp : p.IsAt a) (hq : q.IsAt a) : p.beq q = true := by
  rw [Point.beq, beq_of_denotes (denotes_of_whole? hp.x) (denotes_of_whole? hq.x),
    beq_of_denotes (denotes_of_whole? hp.y) (denotes_of_whole? hq.y)]
  rfl

theorem Point.IsAt.ne (hp : p.IsAt a) (hq : q.IsAt b) (h : ¬ p.beq q = true) : a ≠ b := by
  rintro rfl
  exact h (hp.beq hq)

theorem squaredLength_pos (h : a ≠ b) : 0 < squaredLength ⟨a.x - b.x, a.y - b.y⟩ := by
  refine (add_nonneg (sq_nonneg _) (sq_nonneg _)).lt_of_ne' fun hzero => h ?_
  obtain ⟨hx, hy⟩ := (add_eq_zero_iff_of_nonneg (sq_nonneg _) (sq_nonneg _)).mp hzero
  rw [sq_eq_zero_iff, sub_eq_zero] at hx hy
  cases a
  cases b
  rw [Point.mk.injEq]
  exact ⟨hx, hy⟩

variable {p0 p1 p2 : Point Float} {a0 a1 a2 : Point ℤ} {r : Float}

theorem sides_pos (h0 : p0.IsAt a0) (h1 : p1.IsAt a1) (h2 : p2.IsAt a2)
    (h : ¬ (isZero r || p0.beq p1 || p1.beq p2) = true) :
    0 < squaredLength ⟨a0.x - a1.x, a0.y - a1.y⟩ ∧
      0 < squaredLength ⟨a2.x - a1.x, a2.y - a1.y⟩ := by
  obtain ⟨hsides, hahead⟩ := not_or.mp (mt Bool.or_eq_true_iff.mpr h)
  have hside := (not_or.mp (mt Bool.or_eq_true_iff.mpr hsides)).2
  exact ⟨squaredLength_pos (h0.ne h1 hside), squaredLength_pos (h1.ne h2 hahead).symm⟩

/-- Between whole points along one line no corner is found just if there is no radius or no side,
or if the cosine between the sides is not rounded to less than one in size. -/
theorem Fillet.of?_eq_none_iff_of_alongLine (h0 : p0.IsAt a0) (h1 : p1.IsAt a1) (h2 : p2.IsAt a2)
    (h : AlongLine a0 a1 a2) : Fillet.of? p0 p1 p2 r = .ok none ↔
      (isZero r || p0.beq p1 || p1.beq p2) = true ∨
        ∃ cosine, (p0 - p1).cosineTo (p2 - p1) = .ok cosine ∧
          ble (whole 1) (magnitude cosine) = true := by
  rw [of?_eq_none_iff]
  by_cases hnone : (isZero r || p0.beq p1 || p1.beq p2) = true
  · rw [or_iff_left_of_imp fun _ => hnone, or_iff_left_of_imp fun _ => hnone]
  obtain ⟨hback, hahead⟩ := sides_pos h0 h1 h2 hnone
  obtain ⟨negative, k, hk⟩ :=
    exists_cosineTo (h0.isWhole_sub h1) (h2.isWhole_sub h1) hback hahead h.cross
  simp only [hk, Except.ok.injEq, exists_eq_left', (isFlat_nearOne k negative _).1,
    (isFlat_nearOne k negative true).2]

theorem Fillet.of?_eq_none_of_isSquare (h0 : p0.IsAt a0) (h1 : p1.IsAt a1) (h2 : p2.IsAt a2)
    (h : AlongLine a0 a1 a2) (hfirst : IsSquare (squaredLength ⟨a0.x - a1.x, a0.y - a1.y⟩))
    (hsecond : IsSquare (squaredLength ⟨a2.x - a1.x, a2.y - a1.y⟩)) :
    Fillet.of? p0 p1 p2 r = .ok none := by
  rw [of?_eq_none_iff_of_alongLine h0 h1 h2 h]
  by_cases hnone : (isZero r || p0.beq p1 || p1.beq p2) = true
  · exact .inl hnone
  obtain ⟨hback, hahead⟩ := sides_pos h0 h1 h2 hnone
  obtain ⟨j, hj0, hj⟩ := exists_root hfirst hback
  obtain ⟨k, hk0, hk⟩ := exists_root hsecond hahead
  exact .inr
    (exists_cosineTo_of_lengths (h0.isWhole_sub h1) (h2.isWhole_sub h1) hj hk hj0 hk0 h.cross)

end Points

end Linework
