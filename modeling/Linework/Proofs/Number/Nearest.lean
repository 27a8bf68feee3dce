import Linework.Proofs.Number.Alike

/-!
# The nearest double

A quotient is rounded in two steps: its size determines the unit, and the number of units is
rounded to a whole one. Both are determined by the value of the quotient, so rounding depends on
nothing else. A value that a double has is rounded to that double.
-/

set_option autoImplicit false

namespace Linework.Binary64

open Float.Model (UnpackedFloat Format)

section Halves

variable {q r : ℚ} {n k : ℕ}

/-- A whole number nearest to a value, the even one if there are two. -/
structure IsNearest (q : ℚ) (n : ℕ) : Prop where
  near : |q - n| ≤ 1 / 2
  even : |q - n| = 1 / 2 → Even n

theorem isNearest_of_lt (h : |q - n| < 1 / 2) : IsNearest q n :=
  ⟨h.le, fun he => absurd he h.ne⟩

theorem isNearest_natCast (n : ℕ) : IsNearest n n := isNearest_of_lt (by norm_num)

theorem IsNearest.le (hn : IsNearest q n) (hk : IsNearest r k) (h : q ≤ r) : n ≤ k := by
  -- Two numbers nearest to one value are neighbours at most, and of two neighbours one is odd.
  by_contra hlt
  have hstep : (k : ℚ) + 1 ≤ n := by exact_mod_cast not_le.mp hlt
  obtain ⟨hn1, hn2⟩ := abs_le.mp hn.near
  obtain ⟨hk1, hk2⟩ := abs_le.mp hk.near
  have hqn : q - n = -(1 / 2) := by linarith
  have hrk : r - k = 1 / 2 := by linarith
  have hnk : (n : ℚ) = (k + 1 : ℕ) := by
    push_cast
    linarith
  have hne := hn.even (by rw [hqn]; norm_num)
  have hke := hk.even (by rw [hrk]; norm_num)
  rw [Nat.cast_inj.mp hnk] at hne
  exact (Nat.not_even_iff_odd.mpr hke.add_one) hne

theorem IsNearest.unique (hn : IsNearest q n) (hk : IsNearest q k) : n = k :=
  Nat.le_antisymm (hn.le hk le_rfl) (hk.le hn le_rfl)

theorem IsNearest.abs_sub_le {u : ℚ} (hu : 0 < u) (h : IsNearest (q / u) n) :
    |q - n * u| ≤ u / 2 := by
  have hnear := mul_le_mul_of_nonneg_right h.near hu.le
  rw [← abs_of_pos hu, ← abs_mul, abs_of_pos hu, sub_mul, div_mul_cancel₀ _ hu.ne'] at hnear
  linarith

theorem isNearest_add_half (m : ℕ) : IsNearest (m + 1 / 2) (m + m % 2) := by
  refine ⟨?_, fun _ => Nat.even_iff.mpr (by omega)⟩
  rw [abs_le]
  rcases Nat.mod_two_eq_zero_or_one m with h | h <;> rw [h] <;> push_cast <;>
    constructor <;> linarith

theorem cast_div_eq (num : ℕ) {den : ℕ} (hd : 0 < den) :
    (num : ℚ) / den = (num / den : ℕ) + (num % den : ℕ) / (den : ℚ) := by
  have hpos : (0 : ℚ) < den := by exact_mod_cast hd
  have h : (num : ℚ) = (num / den : ℕ) * (den : ℚ) + (num % den : ℕ) := by
    exact_mod_cast (Nat.div_add_mod' num den).symm
  rw [div_eq_iff hpos.ne', add_mul, div_mul_cancel₀ _ hpos.ne']
  exact h

theorem isNearest_roundHalfEven (num : ℕ) {den : ℕ} (hd : 0 < den) :
    IsNearest ((num : ℚ) / den) (roundHalfEven num den) := by
  have hpos : (0 : ℚ) < den := by exact_mod_cast hd
  have hfrac : (0 : ℚ) ≤ (num % den : ℕ) / (den : ℚ) := by positivity
  rw [cast_div_eq num hd, roundHalfEven]
  split
  · next hlow =>
    apply isNearest_of_lt
    rw [add_sub_cancel_left, abs_of_nonneg hfrac, div_lt_div_iff₀ hpos two_pos]
    exact_mod_cast (by omega : num % den * 2 < 1 * den)
  split
  · next hhigh =>
    apply isNearest_of_lt
    have hhalf : 1 / 2 < ((num % den : ℕ) : ℚ) / (den : ℚ) := by
      rw [div_lt_div_iff₀ two_pos hpos]
      exact_mod_cast (by omega : 1 * den < num % den * 2)
    have hone : ((num % den : ℕ) : ℚ) / (den : ℚ) < 1 := by
      rw [div_lt_one hpos]
      exact_mod_cast Nat.mod_lt num hd
    rw [abs_lt]
    push_cast
    constructor <;> linarith
  · have hhalf : ((num % den : ℕ) : ℚ) / (den : ℚ) = 1 / 2 := by
      rw [div_eq_div_iff hpos.ne' two_ne_zero]
      exact_mod_cast (by omega : num % den * 2 = 1 * den)
    rw [hhalf]
    exact isNearest_add_half _

end Halves

section Units

variable {q : ℚ} {e f : ℤ}

/-- The unit of a value: the least power of two, from that of the subnormals upwards, of which
there are less than 2^53 in it. -/
structure IsUnitExponent (q : ℚ) (e : ℤ) : Prop where
  least : -1074 ≤ e
  fits : q < 2 ^ (53 + e)
  fills : e = -1074 ∨ 2 ^ (52 + e) ≤ q

theorem IsUnitExponent.le (he : IsUnitExponent q e) (hf : IsUnitExponent q f) : e ≤ f := by
  rcases he.fills with h | h
  · exact h ▸ hf.least
  · have hlt : (2 : ℚ) ^ (52 + e) < 2 ^ (53 + f) := h.trans_lt hf.fits
    rw [zpow_lt_zpow_iff_right₀ one_lt_two] at hlt
    omega

theorem IsUnitExponent.unique (he : IsUnitExponent q e) (hf : IsUnitExponent q f) : e = f :=
  le_antisymm (he.le hf) (hf.le he)

theorem isUnitExponent_max (h : 2 ^ (52 + e) ≤ q) (hlt : q < 2 ^ (53 + e)) :
    IsUnitExponent q (max (-1074) e) := by
  rcases le_or_gt (-1074) e with hle | hgt
  · rw [max_eq_right hle]
    exact ⟨hle, hlt, .inr h⟩
  · rw [max_eq_left hgt.le]
    refine ⟨le_rfl, hlt.trans ?_, .inl rfl⟩
    exact zpow_lt_zpow_right₀ one_lt_two (by omega)

theorem count_le {m : ℕ} (h : q < 2 ^ (53 + e)) (hm : IsNearest (q / 2 ^ e) m) : m ≤ 2 ^ 53 := by
  refine hm.le (isNearest_natCast _) ?_
  rw [div_le_iff₀ (by positivity)]
  refine h.le.trans_eq ?_
  rw [zpow_add₀ two_ne_zero]
  norm_cast

theorem le_count {m : ℕ} (h : 2 ^ (52 + e) ≤ q) (hm : IsNearest (q / 2 ^ e) m) : 2 ^ 52 ≤ m := by
  refine (isNearest_natCast _).le hm ?_
  rw [le_div_iff₀ (by positivity)]
  refine Eq.trans_le ?_ h
  rw [zpow_add₀ two_ne_zero]
  norm_cast

theorem zpow_log2_le {n : ℕ} (hn : 0 < n) : (2 : ℚ) ^ (n.log2 : ℤ) ≤ n := by
  rw [zpow_natCast]
  exact_mod_cast Nat.log2_self_le hn.ne'

theorem lt_zpow_log2 (n : ℕ) : (n : ℚ) < 2 ^ ((n.log2 : ℤ) + 1) := by
  have h : (n : ℚ) < ((2 ^ (n.log2 + 1) : ℕ) : ℚ) := by exact_mod_cast Nat.lt_log2_self
  exact_mod_cast h

theorem zpow_le_div {num den : ℕ} (hn : 0 < num) (hd : 0 < den) :
    (2 : ℚ) ^ ((num.log2 : ℤ) - den.log2 - 1) ≤ (num : ℚ) / den := by
  rw [le_div_iff₀ (by exact_mod_cast hd)]
  have hden := (lt_zpow_log2 den).le
  calc (2 : ℚ) ^ ((num.log2 : ℤ) - den.log2 - 1) * den
      ≤ 2 ^ ((num.log2 : ℤ) - den.log2 - 1) * 2 ^ ((den.log2 : ℤ) + 1) := by gcongr
    _ = 2 ^ (num.log2 : ℤ) := by
        rw [← zpow_add₀ two_ne_zero]
        congr 1
        ring
    _ ≤ num := zpow_log2_le hn

theorem div_lt_zpow (num : ℕ) {den : ℕ} (hd : 0 < den) :
    (num : ℚ) / den < 2 ^ ((num.log2 : ℤ) - den.log2 + 1) := by
  rw [div_lt_iff₀ (by exact_mod_cast hd)]
  have hden := zpow_log2_le hd
  calc (num : ℚ) < 2 ^ ((num.log2 : ℤ) + 1) := lt_zpow_log2 num
    _ = 2 ^ ((num.log2 : ℤ) - den.log2 + 1) * 2 ^ (den.log2 : ℤ) := by
        rw [← zpow_add₀ two_ne_zero]
        congr 1
        ring
    _ ≤ 2 ^ ((num.log2 : ℤ) - den.log2 + 1) * den := by gcongr

theorem shiftLeft_lt_iff (num : ℕ) {den : ℕ} (hd : 0 < den) :
    num <<< den.log2 < den <<< num.log2 ↔
      (num : ℚ) / den < 2 ^ ((num.log2 : ℤ) - den.log2) := by
  rw [Nat.shiftLeft_eq, Nat.shiftLeft_eq, zpow_sub₀ two_ne_zero, zpow_natCast, zpow_natCast,
    div_lt_div_iff₀ (by exact_mod_cast hd) (by positivity), mul_comm den]
  norm_cast

theorem isUnitExponent_unitExponent {num den : ℕ} (hn : 0 < num) (hd : 0 < den) :
    IsUnitExponent ((num : ℚ) / den) (unitExponent num den) := by
  rw [unitExponent]
  split
  · next h =>
    apply isUnitExponent_max
    · convert zpow_le_div hn hd using 2
      ring
    · convert (shiftLeft_lt_iff num hd).mp h using 2
      ring
  · next h =>
    apply isUnitExponent_max
    · have he : 52 + ((num.log2 : ℤ) - den.log2 - 52) = num.log2 - den.log2 := by ring
      rw [he]
      exact not_lt.mp (mt (shiftLeft_lt_iff num hd).mpr h)
    · convert div_lt_zpow num hd using 2
      ring

theorem exists_isUnitExponent (num : ℕ) {den : ℕ} (hd : 0 < den) :
    ∃ e, IsUnitExponent ((num : ℚ) / den) e := by
  rcases Nat.eq_zero_or_pos num with rfl | hn
  · refine ⟨-1074, le_rfl, ?_, .inl rfl⟩
    rw [Nat.cast_zero, zero_div]
    positivity
  · exact ⟨_, isUnitExponent_unitExponent hn hd⟩

end Units

section Words

variable {m num den num' den' : ℕ} {e : ℤ}

theorem zpow_eq_div {b : ℚ} (hb : b ≠ 0) (e : ℤ) : b ^ e = b ^ e.toNat / b ^ (-e).toNat := by
  rw [← zpow_natCast, ← zpow_natCast, ← zpow_sub₀ hb]
  congr 1
  omega

theorem quotient_value (m : ℕ) (e : ℤ) :
    ((quotient m e).1 : ℚ) / (quotient m e).2 = m * 2 ^ e := by
  rw [quotient, zpow_eq_div two_ne_zero e]
  push_cast
  ring

theorem isNearest_scaled {b : ℕ} (hb : 0 < b) (num : ℕ) (hd : 0 < den) (e : ℤ) :
    IsNearest ((num : ℚ) / den / b ^ e)
      (roundHalfEven (num * b ^ (-e).toNat) (den * b ^ e.toNat)) := by
  have hpos : (0 : ℚ) < b := by exact_mod_cast hb
  have hpos' : (0 : ℚ) < den := by exact_mod_cast hd
  convert isNearest_roundHalfEven (num * b ^ (-e).toNat)
    (Nat.mul_pos hd (Nat.pow_pos hb : 0 < b ^ e.toNat)) using 1
  rw [zpow_eq_div hpos.ne']
  push_cast
  field_simp

def wordOf (m : ℕ) (e : ℤ) : ℕ := (e + 1074).toNat * 2 ^ 52 + m

theorem magnitudeWord_eq (hn : 0 < num) (hd : 0 < den)
    (he : IsUnitExponent ((num : ℚ) / den) e) (hm : IsNearest ((num : ℚ) / den / 2 ^ e) m) :
    magnitudeWord num den = min (wordOf m e) (2047 * 2 ^ 52) := by
  have hunit := (isUnitExponent_unitExponent hn hd).unique he
  have hround := (isNearest_scaled two_pos num hd e).unique hm
  rw [magnitudeWord, if_neg hn.ne']
  simp only [hunit, hround, wordOf]

theorem magnitudeWord_congr (hd : 0 < den) (hd' : 0 < den')
    (h : (num : ℚ) / den = (num' : ℚ) / den') :
    magnitudeWord num den = magnitudeWord num' den' := by
  have hpos : (0 : ℚ) < den := by exact_mod_cast hd
  have hpos' : (0 : ℚ) < den' := by exact_mod_cast hd'
  rcases Nat.eq_zero_or_pos num with rfl | hn
  · have hzero : (num' : ℚ) / den' = 0 := by rw [← h, Nat.cast_zero, zero_div]
    have hn' : num' = 0 := by exact_mod_cast (div_eq_zero_iff.mp hzero).resolve_right hpos'.ne'
    rw [hn', magnitudeWord, magnitudeWord, if_pos rfl, if_pos rfl]
  · have hq : (0 : ℚ) < (num' : ℚ) / den' := by
      rw [← h]
      positivity
    have hn' : 0 < num' := by exact_mod_cast (div_pos_iff_of_pos_right hpos').mp hq
    have hunit := isUnitExponent_unitExponent hn' hd'
    have hround := isNearest_scaled two_pos num' hd' (unitExponent num' den')
    rw [magnitudeWord_eq hn' hd' hunit hround, magnitudeWord_eq hn hd (h ▸ hunit) (h ▸ hround)]

theorem nearest_congr (negative : Bool) (hd : 0 < den) (hd' : 0 < den')
    (h : (num : ℚ) / den = (num' : ℚ) / den') :
    nearest negative num den = nearest negative num' den' := by
  rw [nearest, magnitudeWord_congr hd hd' h, nearest]

end Words

section Doubles

variable {m num den : ℕ} {e : ℤ} {negative : Bool} {x : Float}

/-- A significand and an exponent as finite doubles have them. -/
structure Fits (m : ℕ) (e : ℤ) : Prop where
  small : m < 2 ^ 53
  least : -1074 ≤ e
  most : e ≤ 971
  normal : e = -1074 ∨ 2 ^ 52 ≤ m

theorem Fits.wordOf_lt (h : Fits m e) : wordOf m e < 2047 * 2 ^ 52 := by
  have hsmall := h.small
  have hmost := h.most
  rw [wordOf]
  omega

theorem Fits.isUnitExponent (h : Fits m e) : IsUnitExponent (m * 2 ^ e) e := by
  refine ⟨h.least, ?_, h.normal.imp_right fun hm => ?_⟩
  · have hm : (m : ℚ) < 2 ^ (53 : ℤ) := by exact_mod_cast h.small
    rw [zpow_add₀ two_ne_zero]
    gcongr
  · have hm : (2 : ℚ) ^ (52 : ℤ) ≤ m := by exact_mod_cast hm
    rw [zpow_add₀ two_ne_zero]
    gcongr

theorem magnitudeWord_of_fits (h : Fits m e) (hd : 0 < den) (hq : (num : ℚ) / den = m * 2 ^ e) :
    magnitudeWord num den = wordOf m e := by
  have hpos : (0 : ℚ) < den := by exact_mod_cast hd
  have hunit : (0 : ℚ) < 2 ^ e := by positivity
  rcases Nat.eq_zero_or_pos num with rfl | hn
  · have hzero : (m : ℚ) * 2 ^ e = 0 := by rw [← hq, Nat.cast_zero, zero_div]
    have hm : m = 0 := by exact_mod_cast (mul_eq_zero.mp hzero).resolve_right hunit.ne'
    have he := h.normal.resolve_right (by omega)
    rw [magnitudeWord, if_pos rfl, wordOf, hm, he]
    rfl
  · have hround : IsNearest ((num : ℚ) / den / 2 ^ e) m := by
      rw [hq, mul_div_cancel_right₀ _ hunit.ne']
      exact isNearest_natCast m
    rw [magnitudeWord_eq hn hd (hq ▸ h.isUnitExponent) hround, min_eq_left h.wordOf_lt.le]

theorem ofBits_toBits (x : Float) : Float.ofBits x.toBits = x := ofModel_unpack x

theorem toBits_ofBits {w : UInt64} (h : w.toNat / 2 ^ 52 % 2 ^ 11 ≠ 2047) :
    (Float.ofBits w).toBits = w := by
  have hvalid : Format.Valid .binary64 w.toBitVec := by
    refine ⟨fun hexponent => absurd ?_ h⟩
    have hfield := congrArg BitVec.toNat hexponent
    rwa [UnpackedFloat.unpackExponent_def, BitVec.extractLsb'_toNat,
      Nat.shiftRight_eq_div_pow] at hfield
  exact congrArg UInt64.ofBitVec (UnpackedFloat.pack_unpack_of_valid hvalid)

theorem fits_of_datum (h : datum x = .finite negative m e) :
    Fits m e ∧ x.toBits.toNat = if negative then wordOf m e + 2 ^ 63 else wordOf m e := by
  have hlt : x.toBits.toNat < 2 ^ 64 := x.toBits.toNat_lt
  simp only [datum] at h
  split at h
  · split at h <;> cases h
  · split at h
    all_goals
      cases h
      refine ⟨⟨by omega, by omega, by omega, by omega⟩, ?_⟩
      simp only [wordOf, decide_eq_true_eq]
      split <;> omega

theorem toNat_ofMagnitudeWord {w : ℕ} (negative : Bool) (h : w < 2047 * 2 ^ 52) :
    (ofMagnitudeWord negative w).toBits.toNat = if negative then w + 2 ^ 63 else w := by
  have hword : (UInt64.ofNat (if negative then w + 2 ^ 63 else w)).toNat =
      if negative then w + 2 ^ 63 else w := by
    rw [UInt64.toNat_ofNat']
    split <;> omega
  rw [ofMagnitudeWord, toBits_ofBits, hword]
  rw [hword]
  split <;> omega

theorem datum_ofMagnitudeWord (negative : Bool) (h : Fits m e) :
    datum (ofMagnitudeWord negative (wordOf m e)) = .finite negative m e := by
  have hword := toNat_ofMagnitudeWord negative h.wordOf_lt
  generalize ofMagnitudeWord negative (wordOf m e) = x at hword ⊢
  obtain ⟨hsmall, hleast, hmost, hnormal⟩ := h
  have hsign : decide (2 ^ 63 ≤ x.toBits.toNat) = negative := by
    rw [hword, wordOf]
    cases negative with
    | false => simp only [Bool.false_eq_true, if_false, decide_eq_false_iff_not]; omega
    | true => simp only [if_true, decide_eq_true_eq]; omega
  have hfield : x.toBits.toNat / 2 ^ 52 % 2 ^ 11 =
      if m < 2 ^ 52 then 0 else (e + 1075).toNat := by
    rw [hword, wordOf]
    split <;> split <;> omega
  have hfraction : x.toBits.toNat % 2 ^ 52 = if m < 2 ^ 52 then m else m - 2 ^ 52 := by
    rw [hword, wordOf]
    split <;> split <;> omega
  simp only [datum, hsign, hfield, hfraction]
  split
  · next hm =>
    rw [if_neg (by decide), if_pos rfl, hnormal.resolve_right (by omega)]
  · next hm =>
    rw [if_neg (by omega), if_neg (by omega)]
    congr 1 <;> omega

theorem ofMagnitudeWord_of_datum (h : datum x = .finite negative m e) :
    ofMagnitudeWord negative (wordOf m e) = x := by
  obtain ⟨-, hword⟩ := fits_of_datum h
  rw [ofMagnitudeWord, ← hword, UInt64.ofNat_toNat, ofBits_toBits]

theorem nearest_of_datum (h : datum x = .finite negative m e) (hd : 0 < den)
    (hq : (num : ℚ) / den = m * 2 ^ e) : nearest negative num den = x := by
  rw [nearest, magnitudeWord_of_fits (fits_of_datum h).1 hd hq, ofMagnitudeWord_of_datum h]

theorem isFinite_iff : isFinite x ↔ ∃ negative m e, datum x = .finite negative m e := by
  rw [isFinite]
  cases datum x <;> simp

theorem isZero_iff_datum : Scalar.isZero x ↔ ∃ negative e, datum x = .finite negative 0 e := by
  have hexponent : UnpackedFloat.unpackExponent (bits x) = 0 ↔
      x.toBits.toNat / 2 ^ 52 % 2 ^ 11 = 0 := by
    rw [← toNat_unpackExponent_bits, ← BitVec.toNat_inj]
    rfl
  have hmantissa : UnpackedFloat.unpackMantissa (bits x) = 0 ↔ x.toBits.toNat % 2 ^ 52 = 0 := by
    rw [← BitVec.toNat_inj, UnpackedFloat.unpackMantissa_def, BitVec.extractLsb'_toNat]
    rfl
  rw [isZero_iff_components, hexponent, hmantissa]
  constructor
  · rintro ⟨he, hm⟩
    refine ⟨decide (2 ^ 63 ≤ x.toBits.toNat), -1074, ?_⟩
    simp only [datum, he, hm]
    rfl
  · rintro ⟨negative, e, h⟩
    simp only [datum] at h
    split at h
    · split at h <;> cases h
    · split at h
      all_goals
        injection h
        omega

/-- What is less than half a unit away from a double is rounded to it, unless the unit changes
there. -/
theorem nearest_of_near (h : datum x = .finite negative m e) (hne : m ≠ 2 ^ 52) (hn : 0 < num)
    (hd : 0 < den) (hq : |(num : ℚ) / den / 2 ^ e - m| < 1 / 2) : nearest negative num den = x := by
  have hfits := (fits_of_datum h).1
  have hunit : (0 : ℚ) < 2 ^ e := by positivity
  obtain ⟨hlow, hhigh⟩ := abs_lt.mp hq
  have hexponent : IsUnitExponent ((num : ℚ) / den) e := by
    refine ⟨hfits.least, ?_, hfits.normal.imp_right fun hm => ?_⟩
    · have hm : (m : ℚ) + 1 ≤ 2 ^ (53 : ℤ) := by exact_mod_cast hfits.small
      rw [zpow_add₀ two_ne_zero, ← div_lt_iff₀ hunit]
      linarith
    · have hm : (2 : ℚ) ^ (52 : ℤ) + 1 ≤ m := by exact_mod_cast (by omega : 2 ^ 52 + 1 ≤ m)
      rw [zpow_add₀ two_ne_zero, ← le_div_iff₀ hunit]
      linarith
  rw [nearest, magnitudeWord_eq hn hd hexponent (isNearest_of_lt hq),
    min_eq_left hfits.wordOf_lt.le, ofMagnitudeWord_of_datum h]

theorem datum_nearest_zero (negative : Bool) (den : ℕ) :
    datum (nearest negative 0 den) = .finite negative 0 (-1074) := by
  have hword : magnitudeWord 0 den = wordOf 0 (-1074) := by
    rw [magnitudeWord, if_pos rfl]
    rfl
  rw [nearest, hword]
  exact datum_ofMagnitudeWord negative ⟨by omega, le_rfl, by omega, .inl rfl⟩

theorem exists_datum_nearest (negative : Bool) (hd : 0 < den)
    (he : IsUnitExponent ((num : ℚ) / den) e) (hm : IsNearest ((num : ℚ) / den / 2 ^ e) m)
    (hmost : e ≤ 970) : ∃ n f, datum (nearest negative num den) = .finite negative n f ∧
      e ≤ f ∧ (n : ℚ) * 2 ^ f = m * 2 ^ e := by
  rcases Nat.eq_zero_or_pos num with rfl | hn
  · have hzero : m = 0 := hm.unique (by simpa using isNearest_natCast 0)
    refine ⟨0, -1074, datum_nearest_zero negative den, ?_, ?_⟩
    · refine (he.fills.resolve_right ?_).le
      rw [Nat.cast_zero, zero_div, not_le]
      positivity
    · rw [hzero, Nat.cast_zero, zero_mul, zero_mul]
  · have hle := count_le he.fits hm
    have hnormal := he.fills.imp_right fun h => le_count h hm
    rw [nearest, magnitudeWord_eq hn hd he hm]
    rcases Nat.lt_or_ge m (2 ^ 53) with hlt | hge
    · have hfits : Fits m e := ⟨hlt, he.least, by omega, hnormal⟩
      rw [min_eq_left hfits.wordOf_lt.le]
      exact ⟨m, e, datum_ofMagnitudeWord negative hfits, le_rfl, rfl⟩
    · -- The significand has grown by one bit.
      have hm : m = 2 ^ 53 := Nat.le_antisymm hle hge
      have hfits : Fits (2 ^ 52) (e + 1) :=
        ⟨by omega, by have := he.least; omega, by omega, .inr le_rfl⟩
      have hword : wordOf m e = wordOf (2 ^ 52) (e + 1) := by
        have hleast := he.least
        rw [wordOf, wordOf, hm]
        omega
      rw [hword, min_eq_left hfits.wordOf_lt.le]
      refine ⟨2 ^ 52, e + 1, datum_ofMagnitudeWord negative hfits, by omega, ?_⟩
      rw [hm, zpow_add_one₀ two_ne_zero]
      push_cast
      ring

end Doubles

section Extremes

variable {num den : ℕ}

theorem magnitudeWord_of_large (hd : 0 < den) (h : 2 ^ (1024 : ℤ) ≤ (num : ℚ) / den) :
    magnitudeWord num den = 2047 * 2 ^ 52 := by
  have hn : 0 < num := by
    rw [Nat.pos_iff_ne_zero]
    rintro rfl
    rw [Nat.cast_zero, zero_div] at h
    exact absurd h (not_le.mpr (by positivity))
  have hunit := isUnitExponent_unitExponent hn hd
  have hround := isNearest_scaled two_pos num hd (unitExponent num den)
  rw [magnitudeWord_eq hn hd hunit hround]
  generalize unitExponent num den = e at hunit hround
  have he : 971 < e := by
    have hlt := h.trans_lt hunit.fits
    rw [zpow_lt_zpow_iff_right₀ one_lt_two] at hlt
    omega
  have hcount := le_count (hunit.fills.resolve_left (by omega)) hround
  rw [min_eq_right]
  rw [wordOf]
  omega

theorem magnitudeWord_of_tiny (hd : 0 < den) (h : (num : ℚ) / den < 2 ^ (-1075 : ℤ)) :
    magnitudeWord num den = 0 := by
  rcases Nat.eq_zero_or_pos num with rfl | hn
  · rw [magnitudeWord, if_pos rfl]
  have hunit : IsUnitExponent ((num : ℚ) / den) (-1074) :=
    ⟨le_rfl, h.trans (zpow_lt_zpow_right₀ one_lt_two (by omega)), .inl rfl⟩
  have hround : IsNearest ((num : ℚ) / den / 2 ^ (-1074 : ℤ)) 0 := by
    apply isNearest_of_lt
    rw [Nat.cast_zero, sub_zero, abs_of_nonneg (by positivity), div_lt_iff₀ (by positivity)]
    refine h.trans_eq ?_
    rw [one_div, ← zpow_neg_one, ← zpow_add₀ two_ne_zero]
    rfl
  rw [magnitudeWord_eq hn hd hunit hround, wordOf]
  rfl

end Extremes

end Linework.Binary64
