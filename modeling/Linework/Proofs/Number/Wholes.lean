import Linework.Proofs.Number.Decimals

/-!
# Whole doubles

The double nearest to a whole number is whole, if it is finite: where doubles lie closer together
than whole numbers the number is a double itself, and where they do not all doubles are whole.
-/

set_option autoImplicit false

namespace Linework.Binary64

variable {x : Float} {m n k : ℕ} {e f : ℤ} {negative other : Bool}

theorem exists_whole?_of_value (h : datum x = .finite negative m e) (hk : (m : ℚ) * 2 ^ e = k) :
    ∃ n, whole? x = some n := by
  have hden : 0 < (quotient m e).2 := Nat.two_pow_pos _
  have hvalue : ((quotient m e).1 : ℚ) = k * (quotient m e).2 := by
    rw [← div_eq_iff (by exact_mod_cast hden.ne'), quotient_value, hk]
  have hnum : (quotient m e).1 = k * (quotient m e).2 := by exact_mod_cast hvalue
  have hmod : (quotient m e).1 % (quotient m e).2 = 0 := by rw [hnum, Nat.mul_mod_left]
  rw [whole?, h]
  simp only [hmod, if_true]
  exact ⟨_, rfl⟩

theorem exists_value_of_nonneg (m : ℕ) (he : 0 ≤ e) : ∃ k : ℕ, (m : ℚ) * 2 ^ e = k := by
  obtain ⟨i, rfl⟩ := Int.eq_ofNat_of_zero_le he
  exact ⟨m * 2 ^ i, by push_cast; rfl⟩

theorem datum_infinity (negative : Bool) :
    datum (ofMagnitudeWord negative (2047 * 2 ^ 52)) = .infinite negative := by
  cases negative <;> rfl

theorem wordOf_eq (h : datum (ofMagnitudeWord negative (wordOf m e)) = .finite other n f)
    (hlt : wordOf m e < 2047 * 2 ^ 52) : wordOf m e = wordOf n f := by
  obtain ⟨hfits, hword⟩ := fits_of_datum h
  have hlt' := hfits.wordOf_lt
  rw [toNat_ofMagnitudeWord negative hlt] at hword
  cases negative <;> cases other <;> simp only [if_true, if_false, Bool.false_eq_true] at hword <;>
    omega

theorem exponent_nonneg (hk : IsUnitExponent ((k : ℚ) / (1 : ℕ)) e) (he : 0 ≤ e)
    (h : datum (nearest negative k 1) = .finite other n f) : 0 ≤ f := by
  have hfills := hk.fills.resolve_left (by omega)
  have hpos : 0 < k := by
    have hunit : (0 : ℚ) < 2 ^ (52 + e) := by positivity
    simpa using hunit.trans_le hfills
  have hround := isNearest_scaled two_pos k one_pos e
  have hcount := le_count hfills hround
  rw [nearest, magnitudeWord_eq hpos one_pos hk hround] at h
  generalize roundHalfEven _ _ = m at h hcount
  rcases lt_or_ge (wordOf m e) (2047 * 2 ^ 52) with hlt | hge
  · rw [min_eq_left hlt.le] at h
    have hword := wordOf_eq h hlt
    have hsmall := (fits_of_datum h).1.small
    rw [wordOf, wordOf] at hword
    omega
  · rw [min_eq_right hge, datum_infinity] at h
    cases h

/-- The double nearest to a whole number is whole. -/
theorem exists_whole?_nearest (h : isFinite (nearest negative k 1)) :
    ∃ n, whole? (nearest negative k 1) = some n := by
  obtain ⟨e, he⟩ := exists_isUnitExponent k one_pos
  rcases le_or_gt 0 e with h0 | h0
  · obtain ⟨_, n, f, hx⟩ := isFinite_iff.mp h
    obtain ⟨j, hj⟩ := exists_value_of_nonneg n (exponent_nonneg he h0 hx)
    exact exists_whole?_of_value hx hj
  · -- Here the number is a whole number of units.
    have hunits : (k : ℚ) / (1 : ℕ) / 2 ^ e = (k * 2 ^ (-e).toNat : ℕ) := by
      have hpower : ((-e).toNat : ℤ) = -e := by omega
      rw [Nat.cast_one, div_one, div_eq_mul_inv, ← zpow_neg, ← hpower, zpow_natCast]
      push_cast
      rfl
    obtain ⟨n, f, hx, -, hvalue⟩ := exists_datum_nearest negative one_pos he
      (hunits ▸ isNearest_natCast _) (by omega)
    refine exists_whole?_of_value hx (k := k) ?_
    rw [hvalue, ← hunits, Nat.cast_one, div_one, div_mul_cancel₀ _ (by positivity)]

end Linework.Binary64
