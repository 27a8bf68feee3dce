import Linework.Proofs.Number.Decimals
import Linework.Outline.Coordinate

/-!
# Rounding to ten places

A finite double stays finite when it is rounded to ten decimal places, and rounding it again
changes nothing. For where doubles lie closer together than the decimals do, a decimal is the one
that is nearest to its nearest double; and where they lie farther apart, the decimal nearest to a
double is too near to it to be rounded to another one.
-/

set_option autoImplicit false

namespace Linework

theorem Decimal.isNearest_roundPlaces (negative : Bool) (m : ℕ) (e : ℤ) (places : ℤ) :
    Binary64.IsNearest (m * 2 ^ e / 10 ^ (roundPlaces negative m e places).power)
      (roundPlaces negative m e places).digits := by
  rw [← Binary64.quotient_value]
  exact_mod_cast Binary64.isNearest_scaled (by omega : 0 < 10) _ (Nat.two_pow_pos _) _

namespace Binary64

open Decimal
open Outline.Coordinate (places)

variable {x : Float} {m n k : ℕ} {e f : ℤ} {negative : Bool}

theorem ten_places_power (negative : Bool) (m : ℕ) (e : ℤ) :
    (Decimal.roundPlaces negative m e places).power = -10 := rfl

theorem exists_roundPlaces (h : datum x = .finite negative m e) :
    ∃ digits : ℕ, IsNearest ((m : ℚ) * 2 ^ e * 10 ^ 10) digits ∧
      roundPlaces x places = nearest negative digits (10 ^ 10) := by
  have hnear := isNearest_roundPlaces negative m e places
  rw [ten_places_power, zpow_neg, div_inv_eq_mul] at hnear
  refine ⟨_, hnear, ?_⟩
  rw [roundPlaces, h]
  change (Decimal.roundPlaces negative m e places).toFloat = _
  rw [toFloat_eq]
  apply nearest_congr _ (quotient_pos _) (by norm_num)
  rw [quotient_size, size, ten_places_power]
  norm_num [div_eq_mul_inv]

theorem roundPlaces_of_units (h : datum x = .finite negative m e)
    (hk : (m : ℚ) * 2 ^ e * 10 ^ 10 = k) : roundPlaces x places = x := by
  obtain ⟨digits, hd, hx⟩ := exists_roundPlaces h
  rw [hx, hd.unique (hk ▸ isNearest_natCast k)]
  apply nearest_of_datum h (by norm_num)
  rw [← hk, Nat.cast_pow]
  exact mul_div_cancel_right₀ _ (by norm_num)

theorem exists_units (m : ℕ) (h : 0 ≤ e) : ∃ k : ℕ, (m : ℚ) * 2 ^ e * 10 ^ 10 = k := by
  obtain ⟨i, rfl⟩ := Int.eq_ofNat_of_zero_le h
  exact ⟨m * 2 ^ i * 10 ^ 10, by push_cast; rfl⟩

/-- A decimal of ten places, the double nearest to it and the units in between. -/
structure Rounded (y : Float) (negative : Bool) (digits n : ℕ) (e : ℤ) : Prop where
  eq_nearest : y = nearest negative digits (10 ^ 10)
  datum : datum y = .finite negative n e
  near : |(digits : ℚ) / 10 ^ 10 - n * 2 ^ e| ≤ 2 ^ e / 2

theorem lt_of_isNearest {digits : ℕ} (h : Fits m e) (he : e ≤ 0)
    (hd : IsNearest ((m : ℚ) * 2 ^ e * 10 ^ 10) digits) :
    (digits : ℚ) / 10 ^ 10 < 2 ^ (54 : ℤ) := by
  have hm : (m : ℚ) * 2 ^ e ≤ 2 ^ (53 : ℤ) * 1 := by
    gcongr
    · exact_mod_cast h.small.le
    · exact zpow_le_one_of_nonpos₀ one_le_two he
  obtain ⟨hlow, -⟩ := abs_le.mp hd.near
  generalize (m : ℚ) * 2 ^ e = value at hm hlow
  rw [div_lt_iff₀ (by positivity)]
  calc (digits : ℚ) ≤ value * 10 ^ 10 + 1 / 2 := by linarith
    _ < 2 ^ (54 : ℤ) * 10 ^ 10 := by
      norm_num at hm ⊢
      linarith

/-- Rounding to ten places leaves a double of whole numbers as it is. For any other, it is the
double nearest to a decimal of ten places. -/
theorem roundPlaces_cases (h : datum x = .finite negative m e) :
    roundPlaces x places = x ∨
      ∃ digits n f, Rounded (roundPlaces x places) negative digits n f := by
  rcases le_or_gt 0 e with he | he
  · obtain ⟨k, hk⟩ := exists_units m he
    exact .inl (roundPlaces_of_units h hk)
  obtain ⟨digits, hd, hx⟩ := exists_roundPlaces h
  have hden : 0 < 10 ^ 10 := by norm_num
  obtain ⟨f, hf⟩ := exists_isUnitExponent digits hden
  have hround := isNearest_scaled two_pos digits hden f
  push_cast at hf hround
  have hsmall : f ≤ 970 := by
    rcases hf.fills with hleast | hfills
    · omega
    have hlt := hfills.trans_lt (lt_of_isNearest (fits_of_datum h).1 he.le hd)
    rw [zpow_lt_zpow_iff_right₀ one_lt_two] at hlt
    omega
  obtain ⟨n, g, hdatum, hle, hvalue⟩ :=
    exists_datum_nearest negative hden (by exact_mod_cast hf) (by exact_mod_cast hround) hsmall
  refine .inr ⟨digits, n, g, hx, hx ▸ hdatum, ?_⟩
  rw [hvalue]
  calc |(digits : ℚ) / 10 ^ 10 - _ * 2 ^ f| ≤ 2 ^ f / 2 := hround.abs_sub_le (by positivity)
    _ ≤ 2 ^ g / 2 := by
      gcongr
      norm_num

theorem datum_roundPlaces (h : datum x = .finite negative m e) :
    ∃ n f, datum (roundPlaces x places) = .finite negative n f := by
  rcases roundPlaces_cases h with hx | ⟨digits, n, f, hr⟩
  · exact ⟨m, e, hx.symm ▸ h⟩
  · exact ⟨n, f, hr.datum⟩

theorem Rounded.isNearest {y : Float} (h : Rounded y negative k n e)
    (hclose : (2 : ℚ) ^ e * 10 ^ 10 < 1) : IsNearest ((n : ℚ) * 2 ^ e * 10 ^ 10) k := by
  have hten : (0 : ℚ) < 10 ^ 10 := by norm_num
  apply isNearest_of_lt
  have hscaled := mul_le_mul_of_nonneg_right h.near hten.le
  rw [abs_sub_comm, ← abs_of_pos hten, ← abs_mul, abs_of_pos hten, sub_mul,
    div_mul_cancel₀ _ hten.ne'] at hscaled
  linarith

theorem roundPlaces_of_apart (h : datum x = .finite negative n e)
    (hapart : 1 < (2 : ℚ) ^ e * 10 ^ 10) (hn : 1 ≤ (n : ℚ)) (hne : n ≠ 2 ^ 52) :
    roundPlaces x places = x := by
  have hunit : (0 : ℚ) < 2 ^ e := by positivity
  obtain ⟨digits, hd, hx⟩ := exists_roundPlaces h
  have hpos : 0 < digits := by
    rw [Nat.pos_iff_ne_zero]
    rintro rfl
    have hsmall := (abs_le.mp hd.near).2
    have hlarge : 1 < (n : ℚ) * 2 ^ e * 10 ^ 10 := by
      rw [mul_assoc]
      exact one_lt_mul_of_le_of_lt hn hapart
    norm_num at hsmall hlarge
    linarith
  rw [hx]
  apply nearest_of_near h hne hpos (by norm_num)
  have hdiv : ((digits : ℕ) : ℚ) / ((10 ^ 10 : ℕ) : ℚ) / 2 ^ e - n =
      -((n : ℚ) * 2 ^ e * 10 ^ 10 - digits) / (2 ^ e * 10 ^ 10) := by
    push_cast
    field_simp
    ring
  rw [hdiv, abs_div, abs_neg, abs_of_pos (zero_lt_one.trans hapart),
    div_lt_iff₀ (zero_lt_one.trans hapart)]
  linarith [hd.near]

theorem Rounded.roundPlaces_eq {y : Float} (h : Rounded y negative k n e) :
    roundPlaces y places = y := by
  rcases lt_or_ge (2 ^ e * 10 ^ 10 : ℚ) 1 with hclose | hapart
  · obtain ⟨digits, hd, hy⟩ := exists_roundPlaces h.datum
    rw [hy, hd.unique (h.isNearest hclose), h.eq_nearest]
  have he : -33 ≤ e := by
    by_contra hlt
    have hle : (2 : ℚ) ^ e ≤ 2 ^ (-34 : ℤ) := zpow_le_zpow_right₀ one_le_two (by omega)
    norm_num at hle hapart
    linarith
  have hn := (fits_of_datum h.datum).1.normal.resolve_left (by omega)
  by_cases hpower : n = 2 ^ 52
  · -- A power of two is a whole number here, and the unit below it does not matter.
    obtain ⟨i, hi⟩ := exists_units 1 (by omega : 0 ≤ 52 + e)
    apply roundPlaces_of_units h.datum (k := i)
    rw [← hi, hpower, zpow_add₀ two_ne_zero]
    norm_num
  · refine roundPlaces_of_apart h.datum ?_ (by exact_mod_cast (by omega : 1 ≤ n)) hpower
    have hle : (2 : ℚ) ^ (-33 : ℤ) ≤ 2 ^ e := zpow_le_zpow_right₀ one_le_two he
    norm_num at hle ⊢
    linarith

theorem roundPlaces_roundPlaces (h : datum x = .finite negative m e) :
    roundPlaces (roundPlaces x places) places = roundPlaces x places := by
  rcases roundPlaces_cases h with hx | ⟨digits, n, f, hr⟩
  · rw [hx, hx]
  · exact hr.roundPlaces_eq

end Binary64

end Linework
