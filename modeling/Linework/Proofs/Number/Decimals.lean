import Linework.Proofs.Number.Nearest

/-!
# What a decimal reads as

A decimal is rounded to the nearest double, and the bounds on its power change nothing about it.
So two decimals of one size read as the same double, and the shortest decimal of a double reads
as that double again.
-/

set_option autoImplicit false

namespace Linework

namespace Decimal

open Binary64

variable {d d' : Decimal} {x : Float} {m : ℕ} {e : ℤ} {negative : Bool}

/-- What a decimal stands for, its sign left out. -/
def size (d : Decimal) : ℚ := d.digits * 10 ^ d.power

theorem quotient_pos (d : Decimal) : 0 < d.quotient.2 := Nat.pow_pos (by omega)

theorem quotient_size (d : Decimal) : (d.quotient.1 : ℚ) / d.quotient.2 = d.size := by
  rw [size, zpow_eq_div (by norm_num), quotient]
  push_cast
  ring

theorem infinity_eq (negative : Bool) (d : Decimal) (hne : d.digits ≠ 0) (h : 400 < d.power) :
    infinity negative = nearest negative d.quotient.1 d.quotient.2 := by
  rw [nearest, magnitudeWord_of_large d.quotient_pos, infinity]
  rw [quotient_size, size]
  have hdigits : (1 : ℚ) ≤ d.digits := by exact_mod_cast Nat.pos_of_ne_zero hne
  calc (2 : ℚ) ^ (1024 : ℤ) ≤ 2 ^ (3 * 400 : ℤ) := zpow_le_zpow_right₀ one_le_two (by omega)
    _ = (2 ^ (3 : ℤ)) ^ (400 : ℤ) := zpow_mul 2 3 400
    _ ≤ 10 ^ (400 : ℤ) := zpow_le_zpow_left₀ (by omega) (by positivity) (by norm_num)
    _ ≤ 10 ^ d.power := zpow_le_zpow_right₀ (by norm_num) h.le
    _ ≤ d.digits * 10 ^ d.power := le_mul_of_one_le_left (by positivity) hdigits

theorem zero_eq (negative : Bool) (d : Decimal) (h : d.power + d.digits.log2 < -400) :
    nearest negative 0 1 = nearest negative d.quotient.1 d.quotient.2 := by
  rw [nearest, nearest, magnitudeWord_of_tiny d.quotient_pos]
  · rfl
  rw [quotient_size, size]
  have hdigits := lt_zpow_log2 d.digits
  have hfive : (5 : ℚ) ^ d.power ≤ 2 ^ (2 * d.power) := by
    obtain ⟨k, hk⟩ := Int.exists_eq_neg_ofNat (by omega : d.power ≤ 0)
    rw [hk, zpow_mul, zpow_neg, zpow_neg]
    exact inv_anti₀ (by positivity) (zpow_le_zpow_left₀ (by omega) (by norm_num) (by norm_num))
  calc (d.digits : ℚ) * 10 ^ d.power
      < 2 ^ ((d.digits.log2 : ℤ) + 1) * 10 ^ d.power := by gcongr
    _ = 2 ^ ((d.digits.log2 : ℤ) + 1 + d.power) * 5 ^ d.power := by
      rw [zpow_add₀ two_ne_zero _ d.power, mul_assoc, ← mul_zpow]
      norm_num
    _ ≤ 2 ^ ((d.digits.log2 : ℤ) + 1 + d.power) * 2 ^ (2 * d.power) := by gcongr
    _ = 2 ^ ((d.digits.log2 : ℤ) + 1 + d.power + 2 * d.power) := (zpow_add₀ two_ne_zero _ _).symm
    _ ≤ 2 ^ (-1075 : ℤ) := zpow_le_zpow_right₀ one_le_two (by omega)

theorem toFloat_eq (d : Decimal) :
    d.toFloat = nearest d.negative d.quotient.1 d.quotient.2 := by
  rw [toFloat]
  split
  · next h =>
    apply nearest_congr _ one_pos d.quotient_pos
    rw [quotient_size, size, h]
    simp
  · next h =>
    split
    · next hlarge => exact infinity_eq _ d h hlarge
    · split
      · next htiny => exact zero_eq _ d htiny
      · rfl

theorem toFloat_congr (hs : d.negative = d'.negative) (h : d.size = d'.size) :
    d.toFloat = d'.toFloat := by
  rw [toFloat_eq, toFloat_eq, hs]
  apply nearest_congr _ d.quotient_pos d'.quotient_pos
  rw [quotient_size, quotient_size, h]

theorem toFloat_of_datum (h : datum x = .finite d.negative m e) (hs : d.size = m * 2 ^ e) :
    d.toFloat = x := by
  rw [toFloat_eq]
  exact nearest_of_datum h d.quotient_pos (by rw [quotient_size, hs])

theorem isZero_toFloat (h : d.size = 0) : Scalar.isZero d.toFloat := by
  have hdigits : d.digits = 0 := by
    exact_mod_cast (mul_eq_zero.mp h).resolve_right (by positivity)
  rw [toFloat, if_pos hdigits, isZero_iff_datum]
  exact ⟨_, _, datum_nearest_zero _ _⟩

theorem eq_of_toBits {x y : Float} (h : x.toBits = y.toBits) : x = y := by
  rw [← ofBits_toBits x, h, ofBits_toBits]

theorem toFloat_of_onGrid? {num den count : ℕ}
    (h : onGrid? x negative num den count = some d) : d.toFloat = x ∧ d.negative = negative := by
  have hpoint (n : ℕ) (p : ℤ) : (gridPoint negative n p count).negative = negative := by
    rw [gridPoint]
    split <;> rfl
  simp only [onGrid?] at h
  split at h
  · next hb =>
    cases h
    exact ⟨eq_of_toBits hb, hpoint _ _⟩
  · split at h
    · next hb =>
      cases h
      exact ⟨eq_of_toBits hb, hpoint _ _⟩
    · split at h
      · next hb =>
        cases h
        exact ⟨eq_of_toBits hb, hpoint _ _⟩
      · cases h

theorem size_exact (negative : Bool) (m : ℕ) (e : ℤ) : (exact negative m e).size = m * 2 ^ e := by
  rw [size, exact]
  push_cast
  rcases le_total 0 e with he | he
  · obtain ⟨k, rfl⟩ := Int.eq_ofNat_of_zero_le he
    simp
  · obtain ⟨k, rfl⟩ := Int.exists_eq_neg_ofNat he
    simp only [neg_neg, Int.toNat_natCast, min_eq_left he]
    have hten : (10 : ℚ) ^ (-(k : ℤ)) = 2 ^ (-(k : ℤ)) * 5 ^ (-(k : ℤ)) := by
      rw [← mul_zpow]
      norm_num
    have hzero : (-(k : ℤ)).toNat = 0 := by omega
    rw [hten, hzero, zpow_neg, zpow_neg, zpow_natCast, zpow_natCast]
    field_simp

/-- The shortest decimal of a double reads as the double. -/
theorem toFloat_shortest (h : datum x = .finite negative m e) :
    (shortest x negative m e).toFloat = x ∧ (shortest x negative m e).negative = negative := by
  simp only [shortest]
  cases hs : (List.range 17).findSome? fun i =>
      onGrid? x negative (Binary64.quotient m e).1 (Binary64.quotient m e).2 (i + 1) with
  | none =>
    exact ⟨toFloat_of_datum h (size_exact negative m e), rfl⟩
  | some d =>
    obtain ⟨i, -, hi⟩ := List.exists_of_findSome?_eq_some hs
    exact toFloat_of_onGrid? hi

end Decimal

end Linework
