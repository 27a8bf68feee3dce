import Linework.Proofs.Number.Wholes
import Linework.Proofs.Outline.Coordinates

/-!
# How coordinates are written

A coordinate is written as one numeral, which reads as the coordinate rounded to ten places. There
is one text for each rounded number: zero has no sign, and a whole number no point. For what ends
in a point and a zero is a whole number, the double nearest to a whole number is whole, and of a
whole double only the digits before the point are written.
-/

set_option autoImplicit false

namespace Linework

open Binary64 (isFinite_iff)
open Scalar (isZero)

namespace Outline

section Endings

variable {token sign mantissa whole fraction exponent front : List Char} {negative : Bool}
  {power : ℤ} {d e : Decimal}

theorem IsDigits.not_mem_point (h : IsDigits whole) : '.' ∉ whole := fun hc =>
  absurd (h '.' hc) (by decide)

theorem IsSign.not_mem_point (h : IsSign sign negative) : '.' ∉ sign := by
  cases h <;> decide

theorem IsExponent.not_mem_point (h : IsExponent exponent power) : '.' ∉ exponent := fun hc =>
  absurd (isExponent_plain h '.' hc) (by decide)

theorem IsExponent.eq_none_or_long (h : IsExponent exponent power) :
    exponent = [] ∧ power = 0 ∨ 2 ≤ exponent.length := by
  cases h with
  | none => exact .inl ⟨rfl, rfl⟩
  | some hc hs hne hp =>
    right
    have := List.length_pos_iff.mpr hne
    rw [List.length_cons, List.length_append]
    omega

theorem fraction_eq_of_suffix (hf : IsDigits fraction)
    (h : ['.', '0'] <:+ front ++ '.' :: fraction) : fraction = ['0'] := by
  have hback : '.' :: fraction <:+ front ++ '.' :: fraction := List.suffix_append _ _
  cases fraction with
  | nil =>
    obtain ⟨t, ht⟩ := h
    have hlast := congrArg List.getLast? ht
    simp at hlast
  | cons c fraction =>
    -- Two ends of one text, of which the shorter is an end of the longer.
    have hshort : ['.', '0'] <:+ '.' :: c :: fraction :=
      List.suffix_of_suffix_length_le h hback (by simp)
    rcases List.suffix_cons_iff.mp hshort with heq | hsuffix
    · exact (List.cons.inj heq).2.symm
    · exact absurd (hsuffix.subset List.mem_cons_self) hf.not_mem_point

theorem size_zero_fraction (negative : Bool) (whole : List Char) :
    Decimal.size ⟨negative, Nat.ofDigitChars 10 (whole ++ ['0']) 0, 0 - (['0'].length : ℤ)⟩ =
      Nat.ofDigitChars 10 whole 0 := by
  have hdigits : Nat.ofDigitChars 10 (whole ++ ['0']) 0 = Nat.ofDigitChars 10 whole 0 * 10 := by
    rw [Nat.ofDigitChars_append, Nat.mul_comm]
    rfl
  have hpower : (0 - (['0'].length : ℤ)) = -1 := rfl
  rw [Decimal.size, hdigits, hpower, zpow_neg_one, Nat.cast_mul, Nat.cast_ofNat,
    mul_inv_cancel_right₀ (by norm_num)]

/-- A numeral that ends in a point and a zero stands for a whole number. -/
theorem IsNumeral.size_of_suffix (h : IsNumeral token d) (hs : ['.', '0'] <:+ token) :
    ∃ k : ℕ, d.size = k := by
  cases h with
  | @mk sign mantissa whole fraction exponent negative power hsign hm he =>
    rcases he.eq_none_or_long with ⟨rfl, rfl⟩ | hlong
    · rw [List.append_nil] at hs
      cases hm with
      | after hne hf =>
        obtain rfl := fraction_eq_of_suffix hf hs
        exact ⟨_, size_zero_fraction negative []⟩
      | around hne hw hf =>
        rw [← List.append_assoc] at hs
        obtain rfl := fraction_eq_of_suffix hf hs
        exact ⟨_, size_zero_fraction negative whole⟩
      | without hne hw =>
        rcases List.mem_append.mp (hs.subset List.mem_cons_self) with hc | hc
        · exact absurd hc hsign.not_mem_point
        · exact absurd hc hw.not_mem_point
    · have hback : exponent <:+ sign ++ (mantissa ++ exponent) := by
        rw [← List.append_assoc]
        exact List.suffix_append _ _
      have hshort := List.suffix_of_suffix_length_le hs hback (by simpa using hlong)
      exact absurd (hshort.subset List.mem_cons_self) he.not_mem_point

theorem IsNumeral.lexemes_eq (h : IsNumeral token d) : lexemes token = [.number d] := by
  have hlongest : IsLongest (token ++ []) token [] d := h.isLongest (by simp)
  rw [List.append_nil] at hlongest
  rw [lexemes_numeral (numeral?_eq_some_iff.mpr ⟨token, hlongest⟩), lexemes_nil]

theorem IsNumeral.unique (h : IsNumeral token d) (h' : IsNumeral token e) : d = e := by
  have heq := h.lexemes_eq.symm.trans h'.lexemes_eq
  simpa using heq

theorem isNumeral_minus_zero : IsNumeral ['-', '0'] ⟨true, 0, 0⟩ := by
  have hzero : IsDigits ['0'] := isDigits_zeros 1
  exact .mk .minus (.without (List.cons_ne_nil '0' []) hzero) .none

end Endings

namespace Coordinate

variable {x y : Float}

theorem not_mem_point_intText (n : ℤ) : '.' ∉ Value.intText n := by
  rw [Value.intText, List.mem_append, not_or]
  exact ⟨by split <;> simp, (isDigits_toDigits _).not_mem_point⟩

theorem not_suffix_exactText (hy : Binary64.isFinite y) : ¬ ['.', '0'] <:+ exactText y := by
  intro hs
  obtain ⟨negative, m, e, hdatum⟩ := isFinite_iff.mp hy
  obtain ⟨d, hd, halike⟩ := exists_isNumeral_exactText hdatum
  cases hw : Binary64.whole? y with
  | some n =>
    rw [exactText, hw] at hs
    exact not_mem_point_intText n (hs.subset List.mem_cons_self)
  | none =>
    -- The text would read as a whole number, and so as a whole double.
    obtain ⟨k, hk⟩ := hd.size_of_suffix hs
    have hnearest : d.toFloat = Binary64.nearest d.negative k 1 := by
      rw [Decimal.toFloat_eq]
      apply Binary64.nearest_congr _ d.quotient_pos one_pos
      rw [Decimal.quotient_size, hk, Nat.cast_one, div_one]
    rcases Binary64.alike_iff.mp halike with heq | ⟨-, hzero⟩
    · rw [heq] at hnearest
      obtain ⟨n, hn⟩ := Binary64.exists_whole?_nearest (hnearest ▸ hy)
      rw [← hnearest, hw] at hn
      cases hn
    · rw [exactText_of_isZero hzero] at hs
      exact absurd hs.length_le (by simp)

theorem text_ne_minus_zero (hx : Binary64.isFinite x) : text x ≠ ['-', '0'] := by
  intro h
  obtain ⟨d, hd, halike⟩ := exists_isNumeral_text hx
  rw [h] at hd
  obtain rfl := hd.unique isNumeral_minus_zero
  have hzero : isZero (Decimal.toFloat ⟨true, 0, 0⟩) :=
    Decimal.isZero_toFloat (by simp [Decimal.size])
  have hround : isZero (Binary64.roundPlaces x places) := by
    rcases Binary64.alike_iff.mp halike with heq | ⟨-, hround⟩
    · exact heq ▸ hzero
    · exact hround
  rw [text, exactText_of_isZero hround] at h
  cases h

theorem write_places (hx : Binary64.isFinite x) : write x (.int places) = .ok (text x) := by
  have hnone : Scalar.nonFinite? x = none := if_pos hx
  rw [write, hnone]
  exact if_pos (isFinite_roundPlaces hx)

/-- Any finite coordinate can be written. What is written is one numeral and nothing else, and it
reads as the coordinate rounded to ten places, of which it keeps all but the sign of a zero. It
is no negative zero and has no point before a last zero, and what is read from it is written in
the same way. -/
theorem write_reads_back (hx : Binary64.isFinite x) :
    ∃ s d, write x (.int places) = .ok s ∧ IsNumeral s d ∧ lexemes s = [.number d] ∧
      (d.toFloat = Binary64.roundPlaces x places ∨
        isZero d.toFloat ∧ isZero (Binary64.roundPlaces x places)) ∧
      s ≠ ['-', '0'] ∧ ¬ ['.', '0'] <:+ s ∧ write d.toFloat (.int places) = .ok s := by
  have hfinite := isFinite_roundPlaces hx
  obtain ⟨d, hd, halike⟩ := exists_isNumeral_text hx
  refine ⟨text x, d, write_places hx, hd, hd.lexemes_eq, Binary64.alike_iff.mp halike,
    text_ne_minus_zero hx, not_suffix_exactText hfinite, ?_⟩
  rw [write_places (isFinite_of_alike halike hfinite), text_congr halike, text_roundPlaces hx]

theorem write_reads_back_small :
    let x : Float := 1 / 65536
    let s := "1.52588e-05".toList
    Binary64.isFinite x ∧ write x (.int places) = .ok s ∧
      ∃ d, IsNumeral s d ∧ lexemes s = [.number d] ∧ write d.toFloat (.int places) = .ok s := by
  intro x s
  have hx : Binary64.isFinite x := by decide +kernel
  have htext : text x = s := by decide +kernel
  obtain ⟨t, d, ht, hd, hlexemes, -, -, -, hagain⟩ := write_reads_back hx
  obtain rfl : s = t := by
    rw [write_places hx, htext] at ht
    exact Except.ok.inj ht
  exact ⟨hx, ht, d, hd, hlexemes, hagain⟩

end Coordinate

end Outline

end Linework
