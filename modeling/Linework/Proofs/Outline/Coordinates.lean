import Linework.Proofs.Number.Places
import Linework.Proofs.Outline.Layout

/-!
# What the text of a coordinate reads as

The text of a finite coordinate is a numeral, and it reads as the coordinate rounded to ten
places; only the sign of a zero is lost. So what is read has the same text again.
-/

set_option autoImplicit false

namespace Linework

open Binary64 (datum isFinite_iff isZero_iff_datum)
open Scalar (Alike isZero)

namespace Outline.Coordinate

variable {x y : Float} {m : ℕ} {e : ℤ} {negative : Bool}

theorem isFinite_of_isZero (h : isZero x) : Binary64.isFinite x := by
  obtain ⟨negative, e, hx⟩ := isZero_iff_datum.mp h
  exact isFinite_iff.mpr ⟨_, _, _, hx⟩

theorem isFinite_of_alike (h : Alike x y) (hy : Binary64.isFinite y) : Binary64.isFinite x := by
  rcases Binary64.alike_iff.mp h with rfl | ⟨hx, -⟩
  · exact hy
  · exact isFinite_of_isZero hx

theorem isFinite_roundPlaces (h : Binary64.isFinite x) :
    Binary64.isFinite (Binary64.roundPlaces x places) := by
  obtain ⟨negative, m, e, hx⟩ := isFinite_iff.mp h
  obtain ⟨n, f, hy⟩ := Binary64.datum_roundPlaces hx
  exact isFinite_iff.mpr ⟨_, _, _, hy⟩

section Wholes

theorem whole?_of_datum (h : datum x = .finite negative m e) :
    (∃ k : ℕ, (m : ℚ) * 2 ^ e = k ∧
      Binary64.whole? x = some (if negative then -(k : ℤ) else k)) ∨ Binary64.whole? x = none := by
  simp only [Binary64.whole?, h]
  split
  · next hmod =>
    refine .inl ⟨_, ?_, rfl⟩
    rw [← Binary64.quotient_value, Nat.cast_div (Nat.dvd_of_mod_eq_zero hmod)]
    exact_mod_cast (Nat.two_pow_pos _).ne'
  · exact .inr rfl

theorem isNumeral_intText (n : ℤ) : ∃ d, IsNumeral (Value.intText n) d ∧
    d.negative = decide (n < 0) ∧ d.size = n.natAbs := by
  have hspells := spells_toDigits n.natAbs
  rw [Value.intText]
  by_cases hn : n < 0
  · simpa [hn] using hspells ['-'] true .minus
  · simpa [hn] using hspells [] false .none

theorem alike_intText (h : datum x = .finite negative m e) {k : ℕ} (hk : (m : ℚ) * 2 ^ e = k) :
    ∃ d, IsNumeral (Value.intText (if negative then -(k : ℤ) else k)) d ∧ Alike d.toFloat x := by
  obtain ⟨d, hd, hsign, hsize⟩ := isNumeral_intText (if negative then -(k : ℤ) else k)
  refine ⟨d, hd, ?_⟩
  have habs : (if negative then -(k : ℤ) else k).natAbs = k := by split <;> simp
  rw [habs] at hsize
  rcases Nat.eq_zero_or_pos k with rfl | hpos
  · have hm : m = 0 := by
      rw [Nat.cast_zero] at hk
      exact_mod_cast (mul_eq_zero.mp hk).resolve_right (by positivity)
    rw [hm] at h
    exact Binary64.alike_iff.mpr (.inr ⟨Decimal.isZero_toFloat (by rw [hsize, Nat.cast_zero]),
      isZero_iff_datum.mpr ⟨_, _, h⟩⟩)
  · have hneg : decide ((if negative then -(k : ℤ) else k) < 0) = negative := by
      cases negative with
      | false => simp
      | true => simpa using hpos
    exact .inl (Decimal.toFloat_of_datum (by rw [hsign, hneg, h]) (hsize.trans hk.symm))

end Wholes

theorem exists_isNumeral_exactText (h : datum x = .finite negative m e) :
    ∃ d, IsNumeral (exactText x) d ∧ Alike d.toFloat x := by
  rw [exactText]
  rcases whole?_of_datum h with ⟨k, hk, hw⟩ | hw
  · rw [hw]
    exact alike_intText h hk
  · rw [hw]
    obtain ⟨hfloat, hsign⟩ := Decimal.toFloat_shortest h
    have hs : IsSign (if negative then ['-'] else []) negative := by
      cases negative <;> constructor
    obtain ⟨d, hd, hneg, hsize⟩ := spells_layout (Decimal.shortest x negative m e).digits
      (Decimal.shortest x negative m e).power _ _ hs
    refine ⟨d, by simpa only [Binary64.text, h] using hd, .inl ?_⟩
    rw [Decimal.toFloat_congr (hneg.trans hsign.symm) hsize, hfloat]

/-- The text of a finite coordinate reads as the coordinate rounded to ten places. -/
theorem exists_isNumeral_text (h : Binary64.isFinite x) :
    ∃ d, IsNumeral (text x) d ∧ Alike d.toFloat (Binary64.roundPlaces x places) := by
  obtain ⟨negative, m, e, hx⟩ := isFinite_iff.mp (isFinite_roundPlaces h)
  exact exists_isNumeral_exactText hx

theorem exactText_of_isZero (h : isZero x) : exactText x = ['0'] := by
  obtain ⟨negative, e, hx⟩ := isZero_iff_datum.mp h
  have hwhole : Binary64.whole? x = some 0 := by simp [Binary64.whole?, hx, Binary64.quotient]
  rw [exactText, hwhole]
  rfl

theorem roundPlaces_of_isZero (h : isZero x) : Binary64.roundPlaces x places = x := by
  obtain ⟨negative, e, hx⟩ := isZero_iff_datum.mp h
  exact Binary64.roundPlaces_of_units hx (k := 0) (by norm_num)

theorem text_of_isZero (h : isZero x) : text x = ['0'] := by
  rw [text, roundPlaces_of_isZero h, exactText_of_isZero h]

theorem text_congr (h : Alike x y) : text x = text y := by
  rcases Binary64.alike_iff.mp h with rfl | ⟨hx, hy⟩
  · rfl
  · rw [text_of_isZero hx, text_of_isZero hy]

theorem text_roundPlaces (h : Binary64.isFinite x) :
    text (Binary64.roundPlaces x places) = text x := by
  obtain ⟨negative, m, e, hx⟩ := isFinite_iff.mp h
  rw [text, Binary64.roundPlaces_roundPlaces hx, text]

end Outline.Coordinate

end Linework
