import Linework.Proofs.Number.Operations

/-!
# Rounding errors and lengths

A value of moderate size that is rounded some times is changed each time by a factor next to one.
The square root that a length is made from is the whole part of the root, with a half added where
something was cut off. With 64 bits to spare this is so near to the length that the double it is
rounded to is off by two such factors at most.
-/

set_option autoImplicit false

namespace Linework

open Binary64

namespace Elementary

theorem squareRootWith_spec {fuel n : ℕ} (h : n < 4 ^ fuel) :
    squareRootWith fuel n * squareRootWith fuel n ≤ n ∧
      n < (squareRootWith fuel n + 1) * (squareRootWith fuel n + 1) := by
  induction fuel generalizing n with
  | zero =>
    have hn : n = 0 := by simpa using h
    simp [hn, squareRootWith]
  | succ fuel ih =>
    rw [squareRootWith]
    by_cases hn : n = 0
    · simp [hn]
    · have hquarter : n / 4 < 4 ^ fuel := by
        rw [Nat.pow_succ] at h
        omega
      obtain ⟨hlow, hhigh⟩ := ih hquarter
      rw [if_neg hn]
      generalize squareRootWith fuel (n / 4) = r at hlow hhigh ⊢
      have hlow' : 2 * r * (2 * r) ≤ n := by
        have hsq : 2 * r * (2 * r) = 4 * (r * r) := by ring
        omega
      have hhigh' : n < (2 * r + 2) * (2 * r + 2) := by
        have hsq : (2 * r + 2) * (2 * r + 2) = 4 * ((r + 1) * (r + 1)) := by ring
        omega
      simp only
      split
      · next hle => exact ⟨hle, hhigh'⟩
      · next hlt => exact ⟨hlow', not_le.mp hlt⟩

theorem squareRoot_eq (n : ℕ) : squareRoot n = Nat.sqrt n := by
  have hfuel : n < 4 ^ (n.log2 / 2 + 1) := by
    calc n < 2 ^ (n.log2 + 1) := Nat.lt_log2_self
      _ ≤ 2 ^ (2 * (n.log2 / 2 + 1)) := Nat.pow_le_pow_right two_pos (by omega)
      _ = 4 ^ (n.log2 / 2 + 1) := by rw [Nat.pow_mul]
  rw [Nat.eq_sqrt]
  exact squareRootWith_spec hfuel

/-- The root of a whole number, and a half if it is not a square: twice that, as whole number. -/
def halfRoots (n : ℕ) : ℕ := 2 * Nat.sqrt n + if Nat.sqrt n * Nat.sqrt n = n then 0 else 1

theorem abs_halfRoots_sub_le (n : ℕ) : |(halfRoots n : ℝ) / 2 - √n| ≤ 1 / 2 := by
  have hlow : (Nat.sqrt n : ℝ) ≤ √n := Real.nat_sqrt_le_real_sqrt
  have hhigh : √n < Nat.sqrt n + 1 := Real.real_sqrt_lt_nat_sqrt_succ
  rw [halfRoots]
  split
  · next h =>
    have hroot : √(n : ℝ) = Nat.sqrt n := by
      rw [Real.sqrt_eq_iff_mul_self_eq (Nat.cast_nonneg _) (Nat.cast_nonneg _)]
      exact_mod_cast h.symm
    rw [hroot]
    norm_num
  · rw [abs_le]
    push_cast
    constructor <;> linarith

theorem sq_sgn (negative : Bool) : (sgn negative : ℚ) ^ 2 = 1 := by
  cases negative <;> norm_num [sgn]

theorem sq_add_sq_eq {s t : Bool} {m n : ℕ} {e f : ℤ} :
    (sgn s * (m * 2 ^ e)) ^ 2 + (sgn t * (n * 2 ^ f)) ^ 2 =
      ((m * 2 ^ (e - min e f).toNat * (m * 2 ^ (e - min e f).toNat) +
        n * 2 ^ (f - min e f).toNat * (n * 2 ^ (f - min e f).toNat) : ℕ) : ℚ) *
        (2 ^ min e f) ^ 2 := by
  have hunits : ∀ {k : ℕ} {g : ℤ}, min e f ≤ g →
      (k : ℚ) * 2 ^ g = ((k * 2 ^ (g - min e f).toNat : ℕ) : ℚ) * 2 ^ min e f := by
    intro k g hg
    push_cast
    rw [← zpow_natCast, Int.toNat_of_nonneg (by omega), zpow_sub₀ two_ne_zero]
    field_simp
  rw [mul_pow (sgn s), mul_pow (sgn t), sq_sgn, sq_sgn, hunits (min_le_left e f),
    hunits (min_le_right e f)]
  push_cast
  ring

theorem abs_halfRoots_scaled_sub_le (k : ℕ) (low : ℤ) :
    |(halfRoots (k * 2 ^ 128) : ℝ) / 2 * 2 ^ (low - 64) - √(k * (2 ^ low) ^ 2)| ≤
      √(k * (2 ^ low) ^ 2) / 2 ^ 65 := by
  have hunit : (0 : ℝ) < 2 ^ (low - 64) := by positivity
  have hroot : √(k * (2 ^ low) ^ 2 : ℝ) = √((k * 2 ^ 128 : ℕ) : ℝ) * 2 ^ (low - 64) := by
    have hsq : (k * (2 ^ low) ^ 2 : ℝ) = ((k * 2 ^ 128 : ℕ) : ℝ) * (2 ^ (low - 64)) ^ 2 := by
      rw [zpow_sub₀ two_ne_zero]
      push_cast
      field_simp
      norm_num
    rw [hsq, Real.sqrt_mul (Nat.cast_nonneg _), Real.sqrt_sq hunit.le]
  have hnear := abs_halfRoots_sub_le (k * 2 ^ 128)
  rw [hroot, ← sub_mul, abs_mul, abs_of_pos hunit, mul_div_right_comm]
  apply mul_le_mul_of_nonneg_right _ hunit.le
  rcases Nat.eq_zero_or_pos k with rfl | hk
  · simp [halfRoots]
  · refine hnear.trans ?_
    have hone : (2 : ℝ) ^ 64 ≤ √((k * 2 ^ 128 : ℕ) : ℝ) := by
      apply Real.le_sqrt_of_sq_le
      push_cast
      have hk : (1 : ℝ) ≤ k := by exact_mod_cast hk
      linarith
    rw [div_le_div_iff₀ two_pos (by positivity)]
    linarith

/-- The length of a vector is rounded from a value that is off by a 65th bit at most. -/
theorem isRounded_hypot {x y : Float} {p q : ℚ} (hx : Denotes x p) (hy : Denotes y q) :
    ∃ l : ℚ, IsRounded l (hypot x y) ∧ 0 ≤ l ∧
      |(l : ℝ) - √(p ^ 2 + q ^ 2 : ℚ)| ≤ √(p ^ 2 + q ^ 2 : ℚ) / 2 ^ 65 := by
  obtain ⟨s, m, e, hx, rfl⟩ := hx
  obtain ⟨t, n, f, hy, rfl⟩ := hy
  rw [sq_add_sq_eq]
  generalize hS : m * 2 ^ (e - min e f).toNat * (m * 2 ^ (e - min e f).toNat) +
    n * 2 ^ (f - min e f).toNat * (n * 2 ^ (f - min e f).toNat) = k
  have hhypot : hypot x y = nearest false
      (halfRoots (k * 2 ^ 128) * 2 ^ (min e f).toNat) (2 ^ (65 + (-min e f).toNat)) := by
    rw [hypot, hx, hy]
    simp only [squareRoot_eq, hS, halfRoots]
  generalize min e f = low at hhypot
  have hvalue : ((halfRoots (k * 2 ^ 128) * 2 ^ low.toNat : ℕ) : ℚ) /
      ((2 ^ (65 + (-low).toNat) : ℕ) : ℚ) = halfRoots (k * 2 ^ 128) / 2 * 2 ^ (low - 64) := by
    rw [zpow_sub₀ two_ne_zero, zpow_eq_div two_ne_zero low, Nat.pow_add]
    push_cast
    field_simp
    ring
  refine ⟨halfRoots (k * 2 ^ 128) / 2 * 2 ^ (low - 64), ?_, by positivity, ?_⟩
  · exact ⟨false, _, _, Nat.two_pow_pos _, by rw [hvalue, sgn]; simp, hhypot⟩
  · have hnear := abs_halfRoots_scaled_sub_le k low
    push_cast
    exact_mod_cast hnear

theorem denotes_hypot {x y : Float} {p q : ℚ} (hx : Denotes x p) (hy : Denotes y q) {k : ℕ}
    (hk : k < 2 ^ 53) (hsq : p ^ 2 + q ^ 2 = (k : ℚ) ^ 2) : Denotes (hypot x y) (k : ℤ) := by
  obtain ⟨l, hl, hl0, hnear⟩ := isRounded_hypot hx hy
  have hroot : √((p ^ 2 + q ^ 2 : ℚ) : ℝ) = k := by
    rw [hsq]
    push_cast
    exact Real.sqrt_sq (Nat.cast_nonneg k)
  rw [hroot] at hnear
  have hnear' : |l - k| ≤ (k : ℚ) / 2 ^ 65 := by
    rw [← Rat.cast_le (K := ℝ)]
    push_cast
    exact hnear
  have hsmall : |(k : ℤ)| < 2 ^ 53 := by
    rw [Nat.abs_cast]
    exact_mod_cast hk
  refine hl.denotes_int_of_near hsmall ?_
  obtain ⟨hlow, -⟩ := abs_le.mp hnear'
  rw [Int.cast_natCast, abs_of_nonneg hl0]
  refine hnear'.trans ?_
  norm_num at hlow ⊢
  linarith

end Elementary

namespace Binary64

/-- So near to a value as `k` roundings leave it. -/
structure Within (k : ℕ) (x y : ℝ) : Prop where
  low : y * (1 - 1 / 2 ^ 53) ^ k ≤ x
  high : x ≤ y * (1 + 1 / 2 ^ 53) ^ k

section Within

variable {x x' y y' z : ℝ} {j k : ℕ}

theorem within_of_abs_sub_le (h : |x - y| ≤ y / 2 ^ 53) : Within 1 x y := by
  obtain ⟨hlow, hhigh⟩ := abs_le.mp h
  constructor <;> rw [pow_one] <;> linarith

theorem factor_pos (k : ℕ) : (0 : ℝ) < (1 - 1 / 2 ^ 53) ^ k := by
  apply pow_pos
  norm_num

theorem Within.trans (h : Within j x y) (h' : Within k y z) : Within (j + k) x z := by
  constructor
  · calc z * (1 - 1 / 2 ^ 53) ^ (j + k) = z * (1 - 1 / 2 ^ 53) ^ k * (1 - 1 / 2 ^ 53) ^ j := by ring
      _ ≤ y * (1 - 1 / 2 ^ 53) ^ j := mul_le_mul_of_nonneg_right h'.low (factor_pos j).le
      _ ≤ x := h.low
  · calc x ≤ y * (1 + 1 / 2 ^ 53) ^ j := h.high
      _ ≤ z * (1 + 1 / 2 ^ 53) ^ k * (1 + 1 / 2 ^ 53) ^ j :=
          mul_le_mul_of_nonneg_right h'.high (by positivity)
      _ = z * (1 + 1 / 2 ^ 53) ^ (j + k) := by ring

theorem Within.pos (h : Within k x y) (hy : 0 < y) : 0 < x :=
  (mul_pos hy (factor_pos k)).trans_le h.low

theorem Within.mul (h : Within j x y) (h' : Within k x' y') (hy : 0 < y) (hy' : 0 < y') :
    Within (j + k) (x * x') (y * y') := by
  have hx := h.pos hy
  have hx' := h'.pos hy'
  constructor
  · calc y * y' * (1 - 1 / 2 ^ 53) ^ (j + k) =
          y * (1 - 1 / 2 ^ 53) ^ j * (y' * (1 - 1 / 2 ^ 53) ^ k) := by ring
      _ ≤ x * x' := mul_le_mul h.low h'.low (mul_pos hy' (factor_pos k)).le hx.le
  · calc x * x' ≤ y * (1 + 1 / 2 ^ 53) ^ j * (y' * (1 + 1 / 2 ^ 53) ^ k) :=
          mul_le_mul h.high h'.high hx'.le (by positivity)
      _ = y * y' * (1 + 1 / 2 ^ 53) ^ (j + k) := by ring

end Within

theorem IsRounded.exists_near {x : Float} {q : ℚ} (h : IsRounded q x) (hlow : 1 / 2 ≤ |q|)
    (hhigh : |q| ≤ 2 ^ 100) : ∃ v, Denotes x v ∧ |v - q| ≤ |q| / 2 ^ 53 := by
  have htiny : (2 : ℚ) ^ (-1022 : ℤ) ≤ 1 / 2 := by
    have hhalf : (1 / 2 : ℚ) = 2 ^ (-1 : ℤ) := by norm_num
    rw [hhalf]
    exact zpow_le_zpow_right₀ one_le_two (by omega)
  have hlarge : (2 : ℚ) ^ 100 < 2 ^ (1023 : ℤ) := by
    have hpow : (2 : ℚ) ^ 100 = 2 ^ (100 : ℤ) := by norm_cast
    rw [hpow]
    exact zpow_lt_zpow_right₀ one_lt_two (by omega)
  exact h.denotes_near (htiny.trans hlow) (hhigh.trans_lt hlarge)

theorem half_le_factor {k : ℕ} (hk : k ≤ 5) :
    (1 : ℝ) / 2 ≤ (1 - 1 / 2 ^ 53) ^ k ∧ (1 + 1 / 2 ^ 53 : ℝ) ^ k ≤ 2 := by
  interval_cases k <;> norm_num

theorem Within.moderate {q : ℚ} {y : ℝ} {k : ℕ} (h : Within k |(q : ℝ)| y) (hk : k ≤ 5)
    (hlow : 1 ≤ y) (hhigh : y ≤ 2 ^ 99) : 1 / 2 ≤ |q| ∧ |q| ≤ 2 ^ 100 := by
  obtain ⟨hfactor, hfactor'⟩ := half_le_factor hk
  have hhalf : 1 / 2 ≤ |(q : ℝ)| := by nlinarith [h.low]
  have hmost : |(q : ℝ)| ≤ 2 ^ 100 := by nlinarith [h.high]
  rw [← Rat.cast_le (K := ℝ), ← Rat.cast_le (K := ℝ)]
  push_cast
  exact ⟨hhalf, hmost⟩

theorem IsRounded.exists_within {x : Float} {q : ℚ} {y : ℝ} {k : ℕ} (h : IsRounded q x)
    (hy : Within k |(q : ℝ)| y) (hk : k ≤ 5) (hlow : 1 ≤ y) (hhigh : y ≤ 2 ^ 99) :
    ∃ v : ℚ, Denotes x v ∧ Within (1 + k) |(v : ℝ)| y := by
  obtain ⟨hhalf, hmost⟩ := hy.moderate hk hlow hhigh
  obtain ⟨v, hv, hnear⟩ := h.exists_near hhalf hmost
  have hcast : |(v : ℝ) - q| ≤ |(q : ℝ)| / 2 ^ 53 := by exact_mod_cast hnear
  exact ⟨v, hv, (within_of_abs_sub_le ((abs_abs_sub_abs_le _ _).trans hcast)).trans hy⟩

theorem exists_within_hypot {x y : Float} {p q : ℚ} (hx : Denotes x p) (hy : Denotes y q)
    (hlow : 1 ≤ p ^ 2 + q ^ 2) (hhigh : p ^ 2 + q ^ 2 ≤ 2 ^ 100) :
    ∃ v : ℚ, Denotes (Elementary.hypot x y) v ∧ Within 2 |(v : ℝ)| √(p ^ 2 + q ^ 2 : ℚ) := by
  obtain ⟨l, hl, hl0, hnear⟩ := Elementary.isRounded_hypot hx hy
  have hone : 1 ≤ √((p ^ 2 + q ^ 2 : ℚ) : ℝ) := by
    apply Real.one_le_sqrt.mpr
    exact_mod_cast hlow
  have hsize : √((p ^ 2 + q ^ 2 : ℚ) : ℝ) ≤ 2 ^ 99 := by
    apply Real.sqrt_le_iff.mpr ⟨by positivity, ?_⟩
    have hcast : ((p ^ 2 + q ^ 2 : ℚ) : ℝ) ≤ 2 ^ 100 := by exact_mod_cast hhigh
    linarith
  have hcast : |(l : ℝ)| = l := abs_of_nonneg (by exact_mod_cast hl0)
  generalize √((p ^ 2 + q ^ 2 : ℚ) : ℝ) = len at hnear hone hsize ⊢
  have hwithin : Within 1 |(l : ℝ)| len := by
    rw [hcast]
    refine within_of_abs_sub_le (hnear.trans ?_)
    gcongr <;> norm_num
  exact hl.exists_within hwithin (by norm_num) hone hsize

end Binary64

end Linework
