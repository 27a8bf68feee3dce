import Linework.Proofs.Number.Nearest

/-!
# The operations of doubles

Sums, differences, products and quotients of finite doubles are rounded once: each is the double
nearest to the exact result. The significand of a result is cut off with two bits kept of what
follows, which say enough about the value to round it.
-/

set_option autoImplicit false

namespace Linework.Binary64

open Float.Model (UnpackedFloat Format totalExponent)
open Float.Model.UnpackedFloat (Sign ExtendedMantissa Accuracy)

section Bits

variable {em : ExtendedMantissa} {q : ℚ}

/-- What a significand and its two extra bits tell about a value. -/
structure Shows (em : ExtendedMantissa) (q : ℚ) : Prop where
  low : em.mantissa ≤ q
  high : q < em.mantissa + 1
  round : em.roundBit = true ↔ em.mantissa + 1 / 2 ≤ q
  sticky : em.stickyBit = true ↔ q ≠ em.mantissa ∧ q ≠ em.mantissa + 1 / 2

theorem shows_add {x : ℚ} (h0 : 0 ≤ x) (h1 : x < 1) (hround : em.roundBit = true ↔ 1 / 2 ≤ x)
    (hsticky : em.stickyBit = true ↔ x ≠ 0 ∧ x ≠ 1 / 2) : Shows em (em.mantissa + x) where
  low := by linarith
  high := by linarith
  round := by rw [hround, add_le_add_iff_left]
  sticky := by rw [hsticky, ne_eq, ne_eq, ne_eq, ne_eq, add_eq_left, add_right_inj]

theorem mantissa_ofMantissaAndAccuracy (m : ℕ) (accuracy : Accuracy) :
    (ExtendedMantissa.ofMantissaAndAccuracy m accuracy).mantissa = m := by
  rcases accuracy with _ | (_ | _ | _) <;> rfl

theorem shows_exact (m : ℕ) : Shows (.ofMantissaAndAccuracy m .exact) m := by
  refine ⟨le_rfl, lt_add_one _, ?_, ?_⟩ <;>
    simp [ExtendedMantissa.ofMantissaAndAccuracy]

theorem Shows.bits_iff (h : Shows em q) :
    (em.roundBit || em.stickyBit) = true ↔ q ≠ em.mantissa := by
  rw [Bool.or_eq_true, h.round, h.sticky]
  constructor
  · rintro (hle | hne)
    · linarith
    · exact hne.1
  · intro hne
    rcases le_or_gt ((em.mantissa : ℚ) + 1 / 2) q with hle | hlt
    · exact .inl hle
    · exact .inr ⟨hne, hlt.ne⟩

theorem Shows.shiftRightOne (h : Shows em q) : Shows em.shiftRightOne (q / 2) := by
  have hlow := h.low
  have hhigh := h.high
  have hm : (em.mantissa : ℚ) = 2 * (em.mantissa / 2 : ℕ) + (em.mantissa % 2 : ℕ) := by
    exact_mod_cast (Nat.div_add_mod em.mantissa 2).symm
  have hbit : (em.mantissa % 2 != 0) = true ↔ em.mantissa % 2 = 1 := by
    rw [bne_iff_ne]
    omega
  have hparts : Shows em.shiftRightOne
      (em.shiftRightOne.mantissa + (q / 2 - (em.mantissa / 2 : ℕ))) := by
    rcases Nat.mod_two_eq_zero_or_one em.mantissa with h2 | h2
    · rw [h2, Nat.cast_zero, add_zero] at hm
      refine shows_add (by linarith) (by linarith) ?_ ?_
      · change (em.mantissa % 2 != 0) = true ↔ _
        rw [hbit, h2]
        exact iff_of_false (by decide) (by linarith)
      · change (em.roundBit || em.stickyBit) = true ↔ _
        rw [h.bits_iff]
        constructor
        · exact fun hne => ⟨fun heq => hne (by linarith), by linarith⟩
        · exact fun hne heq => hne.1 (by linarith)
    · rw [h2, Nat.cast_one] at hm
      refine shows_add (by linarith) (by linarith) ?_ ?_
      · change (em.mantissa % 2 != 0) = true ↔ _
        rw [hbit, h2]
        exact iff_of_true rfl (by linarith)
      · change (em.roundBit || em.stickyBit) = true ↔ _
        rw [h.bits_iff]
        constructor
        · exact fun hne => ⟨by linarith, fun heq => hne (by linarith)⟩
        · exact fun hne heq => hne.2 (by linarith)
  change Shows em.shiftRightOne ((em.mantissa / 2 : ℕ) + (q / 2 - (em.mantissa / 2 : ℕ))) at hparts
  rwa [add_sub_cancel] at hparts

theorem Shows.shiftRight (h : Shows em q) (k : ℕ) : Shows (em >>> k) (q / 2 ^ k) := by
  change Shows (Nat.repeat _ k em) _
  induction k with
  | zero => simpa [Nat.repeat] using h
  | succ k ih =>
    rw [Nat.repeat, pow_succ, ← div_div]
    exact ih.shiftRightOne

theorem Shows.isNearest (h : Shows em q) : IsNearest q em.roundedMantissa := by
  rcases em with ⟨m, roundBit, stickyBit⟩
  obtain ⟨hlow, hhigh, hround, hsticky⟩ := h
  simp only at hlow hhigh hround hsticky
  cases roundBit with
  | false =>
    have hlt : q < m + 1 / 2 := not_le.mp (hround.not.mp Bool.false_ne_true)
    have hnear : IsNearest q m := isNearest_of_lt (by rw [abs_lt]; constructor <;> linarith)
    cases stickyBit <;> exact hnear
  | true =>
    have hle : m + 1 / 2 ≤ q := hround.mp rfl
    cases stickyBit with
    | false =>
      have heq : q = m + 1 / 2 := by
        by_contra hne
        exact Bool.false_ne_true (hsticky.mpr ⟨by linarith, hne⟩)
      rw [heq]
      exact isNearest_add_half m
    | true =>
      have hlt : m + 1 / 2 < q := lt_of_le_of_ne hle (hsticky.mp rfl).2.symm
      have hnear : IsNearest q (m + 1 : ℕ) := by
        apply isNearest_of_lt
        push_cast
        rw [abs_lt]
        constructor <;> linarith
      exact hnear

end Bits

section Packing

variable {s : Sign} {m : ℕ} {e : ℤ} {hm : 0 < m}

def isNegative : Sign → Bool
  | .negative => true
  | .positive => false

theorem toNat_packComponents (s : Sign) (field : BitVec 11) (fraction : BitVec 52) :
    (UnpackedFloat.packComponents .binary64 s field fraction).toNat =
      (if isNegative s then 2 ^ 63 else 0) + field.toNat * 2 ^ 52 + fraction.toNat := by
  have hsign : s.toBitVec.toNat = if isNegative s then 1 else 0 := by cases s <;> rfl
  have happend : ∀ {k l : ℕ} (x : BitVec k) (y : BitVec l),
      (x ++ y).toNat = x.toNat * 2 ^ l + y.toNat := by
    intro k l x y
    rw [BitVec.toNat_append, ← Nat.shiftLeft_add_eq_or_of_lt y.isLt, Nat.shiftLeft_eq]
  change (s.toBitVec ++ field ++ fraction).toNat = _
  rw [happend, happend, hsign]
  split <;> omega

theorem ofModel_pack_eq {u : UnpackedFloat} {w : ℕ} {negative : Bool} (hw : w < 2047 * 2 ^ 52)
    (h : (UnpackedFloat.pack .binary64 u).toNat = (if negative then 2 ^ 63 else 0) + w) :
    Float.ofModel (.pack u) = ofMagnitudeWord negative w := by
  have hbits : (Float.ofModel (.pack u)).toBits = (ofMagnitudeWord negative w).toBits := by
    apply UInt64.toNat_inj.mp
    rw [toNat_ofMagnitudeWord negative hw]
    change (UnpackedFloat.pack .binary64 u).toNat = _
    rw [h]
    split <;> omega
  rw [← ofBits_toBits (Float.ofModel (.pack u)), hbits, ofBits_toBits]

theorem ofModel_pack_of_fits (h : Fits m e) :
    Float.ofModel (.pack (.finite s m e hm)) = ofMagnitudeWord (isNegative s) (wordOf m e) := by
  apply ofModel_pack_eq h.wordOf_lt
  have hleast := h.least
  have hmost := h.most
  have hfield : (e + (Format.exponentBias .binary64 : ℤ) +
      (Format.mantissaBitsWithoutImplicit .binary64 : ℤ)).toNat = (e + 1075).toNat := by
    congr 1
    change e + 1023 + 52 = e + 1075
    ring
  have hbits : ∀ f : ℕ, f < 2 ^ 11 → (BitVec.ofNat 11 f).toNat = f := fun f hf => by
    rw [BitVec.toNat_ofNat, Nat.mod_eq_of_lt hf]
  have hroom : ¬ 2 ^ Format.exponentBits .binary64 ≤ (e + 1075).toNat + 1 := by
    change ¬ 2 ^ 11 ≤ (e + 1075).toNat + 1
    omega
  simp only [UnpackedFloat.pack, hfield, if_neg hroom]
  by_cases hm52 : 2 ^ 52 ≤ m
  · have hlog : m.log2 + 1 = Format.mantissaBits .binary64 := by
      have h52 : m.log2 = 52 := (Nat.log2_eq_iff hm.ne').mpr ⟨hm52, h.small⟩
      rw [h52]
      rfl
    rw [if_pos hlog, toNat_packComponents, wordOf]
    change _ + (BitVec.ofNat 11 (e + 1075).toNat).toNat * 2 ^ 52 + (BitVec.ofNat 52 m).toNat = _
    rw [hbits _ (by omega), BitVec.toNat_ofNat]
    have hsmall := h.small
    omega
  · have hlog : ¬ m.log2 + 1 = Format.mantissaBits .binary64 := by
      have h52 := (Nat.log2_lt hm.ne').mpr (not_le.mp hm52)
      change ¬ m.log2 + 1 = 53
      omega
    have he := h.normal.resolve_right hm52
    rw [if_neg hlog, toNat_packComponents, wordOf, he]
    change _ + 0 * 2 ^ 52 + (BitVec.ofNat 52 m).toNat = _
    rw [BitVec.toNat_ofNat]
    omega

theorem ofModel_pack_of_large (h : 971 < e) :
    Float.ofModel (.pack (.finite s m e hm)) = infinity (isNegative s) := by
  have hinfinity : ∀ t : Sign, Float.ofModel (.pack (.infinity t)) = infinity (isNegative t) := by
    intro t
    cases t <;> decide +kernel
  have hroom : 2 ^ Format.exponentBits .binary64 ≤ (e + (Format.exponentBias .binary64 : ℤ) +
      (Format.mantissaBitsWithoutImplicit .binary64 : ℤ)).toNat + 1 := by
    change 2 ^ 11 ≤ (e + 1023 + 52).toNat + 1
    omega
  have hpack : UnpackedFloat.pack .binary64 (.finite s m e hm) =
      UnpackedFloat.pack .binary64 (.infinity s) := by
    simp only [UnpackedFloat.pack, if_pos hroom]
  rw [← hinfinity]
  simp only [Float.Model.pack, hpack]

theorem ofModel_pack_zero (s : Sign) :
    Float.ofModel (.pack (.zero s)) = ofMagnitudeWord (isNegative s) 0 := by
  cases s <;> decide +kernel

end Packing

section Rounding

variable {s : Sign} {m : ℕ} {e : ℤ} {accuracy : Accuracy} {q : ℚ}

theorem shiftToTargetExponent_of_lt {n : ℕ} {t : ℤ} (h : n < 2 ^ 53) (ht : -1074 ≤ t) :
    UnpackedFloat.shiftToTargetExponent .binary64 n t .exact = (⟨n, false, false⟩, t) := by
  have hlog : n.log2 ≤ 52 := by
    rcases Nat.eq_zero_or_pos n with rfl | hn
    · simp
    · exact Nat.lt_succ_iff.mp ((Nat.log2_lt hn.ne').mpr h)
  have hshift : (Format.targetExponent .binary64 (totalExponent n t) - t).toNat = 0 := by
    rw [targetExponent_eq, totalExponent]
    omega
  rw [UnpackedFloat.shiftToTargetExponent]
  simp only [UnpackedFloat.shiftToExponent, hshift, Nat.cast_zero, add_zero]
  rfl

theorem shiftToTargetExponent_carry {t : ℤ} (ht : -1074 ≤ t) :
    UnpackedFloat.shiftToTargetExponent .binary64 (2 ^ 53) t .exact =
      (⟨2 ^ 52, false, false⟩, t + 1) := by
  have hshift : (Format.targetExponent .binary64 (totalExponent (2 ^ 53) t) - t).toNat = 1 := by
    rw [targetExponent_eq, totalExponent, Nat.log2_two_pow]
    omega
  rw [UnpackedFloat.shiftToTargetExponent]
  simp only [UnpackedFloat.shiftToExponent, hshift]
  rfl

theorem ofModel_shifted {n : ℕ} {t : ℤ} (h : n ≤ 2 ^ 53) (ht : -1074 ≤ t)
    (hn : t = -1074 ∨ 2 ^ 52 ≤ n) :
    Float.ofModel (.pack
      (if h : (UnpackedFloat.shiftToTargetExponent .binary64 n t .exact).1.mantissa = 0 then
        .zero s
      else .finite s (UnpackedFloat.shiftToTargetExponent .binary64 n t .exact).1.mantissa
        (UnpackedFloat.shiftToTargetExponent .binary64 n t .exact).2 (Nat.pos_of_ne_zero h))) =
      ofMagnitudeWord (isNegative s) (min (wordOf n t) (2047 * 2 ^ 52)) := by
  rcases Nat.lt_or_ge n (2 ^ 53) with hlt | hge
  · simp only [shiftToTargetExponent_of_lt hlt ht]
    rcases Nat.eq_zero_or_pos n with rfl | hn0
    · have hword : wordOf 0 t = 0 := by
        rw [wordOf, hn.resolve_right (by omega)]
        rfl
      rw [dif_pos rfl, ofModel_pack_zero, hword]
      rfl
    · rw [dif_neg hn0.ne']
      rcases le_or_gt t 971 with hmost | hlarge
      · have hfits : Fits n t := ⟨hlt, ht, hmost, hn⟩
        rw [ofModel_pack_of_fits hfits, min_eq_left hfits.wordOf_lt.le]
      · have hn52 := hn.resolve_left (by omega)
        rw [ofModel_pack_of_large hlarge, min_eq_right, infinity]
        rw [wordOf]
        omega
  · have heq : n = 2 ^ 53 := Nat.le_antisymm h hge
    subst heq
    have hword : wordOf (2 ^ 53) t = wordOf (2 ^ 52) (t + 1) := by
      rw [wordOf, wordOf]
      omega
    simp only [shiftToTargetExponent_carry ht, hword]
    rw [dif_neg (by decide)]
    rcases le_or_gt t 970 with hmost | hlarge
    · have hfits : Fits (2 ^ 52) (t + 1) := ⟨by decide, by omega, by omega, .inr le_rfl⟩
      rw [ofModel_pack_of_fits hfits, min_eq_left hfits.wordOf_lt.le]
    · rw [ofModel_pack_of_large (by omega), min_eq_right, infinity]
      rw [wordOf]
      omega

/-- Rounding rounds to the nearest double: what is given is a value of `q` units, `m` of them
whole, and a unit at most that of the result. -/
theorem ofModel_roundWithAccuracy (h : Shows (.ofMantissaAndAccuracy m accuracy) q)
    (he : e ≤ Format.targetExponent .binary64 (totalExponent m e))
    (hu : IsUnitExponent (q * 2 ^ e) (Format.targetExponent .binary64 (totalExponent m e)))
    {num den : ℕ} (hd : 0 < den) (hq : (num : ℚ) / den = q * 2 ^ e) (hn : 0 < num) :
    Float.ofModel (.pack (UnpackedFloat.roundWithAccuracy .binary64 s m e accuracy)) =
      nearest (isNegative s) num den := by
  generalize ht : Format.targetExponent .binary64 (totalExponent m e) = t at he hu
  have hfirst : UnpackedFloat.shiftToTargetExponent .binary64 m e accuracy =
      (ExtendedMantissa.ofMantissaAndAccuracy m accuracy >>> (t - e).toNat, t) := by
    rw [UnpackedFloat.shiftToTargetExponent, ht, UnpackedFloat.shiftToExponent]
    simp only [Prod.mk.injEq, true_and]
    omega
  have hcount : q / 2 ^ (t - e).toNat = (num : ℚ) / den / 2 ^ t := by
    rw [hq, ← zpow_natCast, Int.toNat_of_nonneg (by omega), zpow_sub₀ two_ne_zero]
    field_simp
  have hnearest := (h.shiftRight (t - e).toNat).isNearest
  rw [hcount] at hnearest
  generalize hem : ExtendedMantissa.ofMantissaAndAccuracy m accuracy >>> (t - e).toNat = em
    at hfirst hnearest
  rw [← hq] at hu
  rw [nearest, magnitudeWord_eq hn hd hu hnearest, UnpackedFloat.roundWithAccuracy, hfirst]
  exact ofModel_shifted (count_le hu.fits hnearest) hu.least
    (hu.fills.imp_right fun hfills => le_count hfills hnearest)

theorem isUnitExponent_target (hm : 0 < m) (hlow : m ≤ q) (hhigh : q < m + 1) :
    IsUnitExponent (q * 2 ^ e) (Format.targetExponent .binary64 (totalExponent m e)) := by
  have hunit : (0 : ℚ) < 2 ^ e := by positivity
  rw [targetExponent_eq, max_comm, totalExponent]
  apply isUnitExponent_max
  · have hexp : 52 + ((m.log2 : ℤ) + 1 + e - 53) = m.log2 + e := by ring
    rw [hexp, zpow_add₀ two_ne_zero]
    exact mul_le_mul_of_nonneg_right ((zpow_log2_le hm).trans hlow) hunit.le
  · have hexp : 53 + ((m.log2 : ℤ) + 1 + e - 53) = m.log2 + 1 + e := by ring
    have hnext : (m : ℚ) + 1 ≤ 2 ^ ((m.log2 : ℤ) + 1) := by
      have hnat : m + 1 ≤ 2 ^ (m.log2 + 1) := Nat.lt_log2_self
      exact_mod_cast hnat
    rw [hexp, zpow_add₀ two_ne_zero]
    exact mul_lt_mul_of_pos_right (hhigh.trans_le hnext) hunit

end Rounding

section Values

def sgn (negative : Bool) : ℚ := if negative then -1 else 1

theorem sgn_mul (s t : Sign) :
    sgn (isNegative (s * t)) = sgn (isNegative s) * sgn (isNegative t) := by
  have hxor : isNegative (s * t) = xor (isNegative s) (isNegative t) := by
    cases s <;> cases t <;> rfl
  rw [hxor]
  cases isNegative s <;> cases isNegative t <;> norm_num [sgn]

theorem sgn_div (s t : Sign) :
    sgn (isNegative (s / t)) = sgn (isNegative s) / sgn (isNegative t) := by
  have hxor : isNegative (s / t) = xor (isNegative s) (isNegative t) := by
    cases s <;> cases t <;> rfl
  rw [hxor]
  cases isNegative s <;> cases isNegative t <;> norm_num [sgn]

/-- A double that is nearest to a value; the sign of zero is left open. -/
def IsRounded (q : ℚ) (x : Float) : Prop :=
  ∃ (negative : Bool) (num den : ℕ), 0 < den ∧ q = sgn negative * (num / den) ∧
    x = nearest negative num den

def Stands (u : UnpackedFloat) (q : ℚ) : Prop :=
  (∃ s, u = .zero s ∧ q = 0) ∨
    ∃ s m e hm, u = .finite s m e hm ∧ Fits m e ∧ q = sgn (isNegative s) * (m * 2 ^ e)

/-- A finite double stands for a value. -/
def Denotes (x : Float) (q : ℚ) : Prop :=
  ∃ negative m e, datum x = .finite negative m e ∧ q = sgn negative * (m * 2 ^ e)

variable {x y : Float} {p q : ℚ} {u v : UnpackedFloat} {s : Sign} {m : ℕ} {e : ℤ}

theorem isRounded_zero (s : Sign) : IsRounded 0 (.ofModel (.pack (.zero s))) := by
  refine ⟨isNegative s, 0, 1, one_pos, by simp, ?_⟩
  rw [ofModel_pack_zero, nearest, magnitudeWord, if_pos rfl]

theorem isRounded_of_fits (h : Fits m e) (hm : 0 < m) :
    IsRounded (sgn (isNegative s) * (m * 2 ^ e)) (.ofModel (.pack (.finite s m e hm))) := by
  have hden : 0 < (quotient m e).2 := Nat.two_pow_pos _
  refine ⟨isNegative s, (quotient m e).1, (quotient m e).2, hden, by rw [quotient_value], ?_⟩
  rw [ofModel_pack_of_fits h, nearest, magnitudeWord_of_fits h hden (quotient_value m e)]

theorem Stands.neg (h : Stands u q) : Stands u.neg (-q) := by
  rcases h with ⟨s, rfl, rfl⟩ | ⟨s, m, e, hm, rfl, hfits, rfl⟩
  · exact .inl ⟨-s, rfl, neg_zero⟩
  · refine .inr ⟨-s, m, e, hm, rfl, hfits, ?_⟩
    cases s
    · norm_num [sgn, isNegative]
    · norm_num [sgn, isNegative]

theorem Denotes.stands (h : Denotes x q) : Stands x.toModel.unpack q := by
  obtain ⟨negative, m, e, hx, rfl⟩ := h
  have hfinite : isFinite x := isFinite_iff.mpr ⟨negative, m, e, hx⟩
  rcases unpack_of_isFinite hfinite with ⟨s, hs⟩ | ⟨s, n, f, hn, hu, htarget⟩
  · obtain ⟨negative', e', hzero⟩ := isZero_iff_datum.mp (isZero_iff.mpr ⟨s, hs⟩)
    rw [hx] at hzero
    cases hzero
    exact .inl ⟨s, hs, by simp⟩
  · have hpacked := ofModel_unpack x
    rw [hu] at hpacked
    have hmost : f ≤ 971 := by
      by_contra hlarge
      rw [ofModel_pack_of_large (not_le.mp hlarge)] at hpacked
      rw [← hpacked] at hfinite
      revert hfinite
      cases s <;> decide +kernel
    rw [targetExponent_eq, totalExponent] at htarget
    have hlog : n.log2 ≤ 52 := by omega
    have hfits : Fits n f := by
      refine ⟨(Nat.log2_lt hn.ne').mp (by omega), by omega, hmost, ?_⟩
      rcases Nat.lt_or_ge n.log2 52 with hlt | hge
      · exact .inl (by omega)
      · exact .inr ((Nat.le_log2 hn.ne').mp hge)
    rw [ofModel_pack_of_fits hfits] at hpacked
    have hdatum := datum_ofMagnitudeWord (isNegative s) hfits
    rw [hpacked, hx] at hdatum
    cases hdatum
    exact .inr ⟨s, m, e, hn, hu, hfits, rfl⟩

theorem isRounded_roundWithAccuracy {accuracy : Accuracy} {r : ℚ} (hr : 0 < r)
    (h : Shows (.ofMantissaAndAccuracy m accuracy) r)
    (he : e ≤ Format.targetExponent .binary64 (totalExponent m e))
    (hu : IsUnitExponent (r * 2 ^ e) (Format.targetExponent .binary64 (totalExponent m e))) :
    IsRounded (sgn (isNegative s) * (r * 2 ^ e))
      (.ofModel (.pack (UnpackedFloat.roundWithAccuracy .binary64 s m e accuracy))) := by
  have hvalue : 0 < r * 2 ^ e := by positivity
  have hnum : 0 < (r * 2 ^ e).num := Rat.num_pos.mpr hvalue
  have hquotient : (((r * 2 ^ e).num.toNat : ℕ) : ℚ) / ((r * 2 ^ e).den : ℚ) = r * 2 ^ e := by
    have hcast : (((r * 2 ^ e).num.toNat : ℕ) : ℚ) = ((r * 2 ^ e).num : ℚ) := by
      exact_mod_cast congrArg (Int.cast : ℤ → ℚ) (Int.toNat_of_nonneg hnum.le)
    rw [hcast, Rat.num_div_den]
  refine ⟨isNegative s, (r * 2 ^ e).num.toNat, (r * 2 ^ e).den, Rat.den_pos _, ?_, ?_⟩
  · rw [hquotient]
  · exact ofModel_roundWithAccuracy h he hu (Rat.den_pos _) hquotient (by omega)

theorem isRounded_round (hm : 0 < m) :
    IsRounded (sgn (isNegative s) * (m * 2 ^ e))
      (.ofModel (.pack (UnpackedFloat.round .binary64 s m e))) := by
  generalize ht : Format.targetExponent .binary64 (totalExponent m e) = t
  generalize hk : (e - t).toNat = k
  have htotal : totalExponent (m <<< k) (e - k) = totalExponent m e := by
    rw [totalExponent, totalExponent, Nat.shiftLeft_eq, Nat.mul_comm, log2_two_pow_mul k hm]
    push_cast
    ring
  have hvalue : (m : ℚ) * 2 ^ e = ((m <<< k : ℕ) : ℚ) * 2 ^ (e - k) := by
    rw [Nat.shiftLeft_eq, zpow_sub₀ two_ne_zero, zpow_natCast]
    push_cast
    field_simp
  have hround : UnpackedFloat.round .binary64 s m e =
      UnpackedFloat.roundWithAccuracy .binary64 s (m <<< k) (e - k) .exact := by
    rw [UnpackedFloat.round, UnpackedFloat.decreaseExponent]
    simp only [ht, hk]
  have hpos : 0 < m <<< k := by
    rw [Nat.shiftLeft_eq]
    positivity
  rw [hround, hvalue]
  refine isRounded_roundWithAccuracy (by exact_mod_cast hpos) (shows_exact _) ?_
    (isUnitExponent_target hpos le_rfl (lt_add_one _))
  rw [htotal, ht]
  omega

theorem isRounded_normalize (k : ℤ) (e : ℤ) :
    IsRounded (k * 2 ^ e) (.ofModel (.pack (UnpackedFloat.normalize .binary64 k e .positive))) := by
  rw [UnpackedFloat.normalize]
  rcases lt_trichotomy k 0 with hk | rfl | hk
  · have hcast : (k : ℚ) * 2 ^ e = sgn (isNegative .negative) * (((-k).toNat : ℕ) * 2 ^ e) := by
      have htoNat : (((-k).toNat : ℕ) : ℚ) = ((-k : ℤ) : ℚ) := by
        exact_mod_cast congrArg (Int.cast : ℤ → ℚ) (Int.toNat_of_nonneg (by omega))
      rw [htoNat]
      simp [sgn, isNegative]
    rw [Int.compare_eq_lt.mpr hk, hcast]
    exact isRounded_round (by omega)
  · rw [Int.compare_eq_eq.mpr rfl]
    simpa using isRounded_zero .positive
  · have hcast : (k : ℚ) * 2 ^ e = sgn (isNegative .positive) * ((k.toNat : ℕ) * 2 ^ e) := by
      have htoNat : ((k.toNat : ℕ) : ℚ) = (k : ℚ) := by
        exact_mod_cast congrArg (Int.cast : ℤ → ℚ) (Int.toNat_of_nonneg hk.le)
      rw [htoNat]
      simp [sgn, isNegative]
    rw [Int.compare_eq_gt.mpr hk, hcast]
    exact isRounded_round (by omega)

theorem apply_decreaseExponent (s : Sign) (m : ℕ) {e f : ℤ} (h : f ≤ e) :
    ((s.apply ((UnpackedFloat.decreaseExponent m e f).1 : ℕ) : ℤ) : ℚ) * 2 ^ f =
      sgn (isNegative s) * (m * 2 ^ e) := by
  have hshift : ((m <<< (e - f).toNat : ℕ) : ℚ) * 2 ^ f = m * 2 ^ e := by
    rw [Nat.shiftLeft_eq]
    push_cast
    rw [← zpow_natCast, Int.toNat_of_nonneg (by omega), zpow_sub₀ two_ne_zero]
    field_simp
  have happly : ∀ k : ℕ, ((s.apply k : ℤ) : ℚ) = sgn (isNegative s) * k := by
    intro k
    cases s <;> simp [Sign.apply, isNegative, sgn]
  rw [UnpackedFloat.decreaseExponent, happly, mul_assoc, hshift]

theorem isRounded_add_unpacked (hu : Stands u p) (hv : Stands v q) :
    IsRounded (p + q) (.ofModel (.pack (UnpackedFloat.add .binary64 u v))) := by
  rcases hu with ⟨s, rfl, rfl⟩ | ⟨s, m, e, hm, rfl, hfits, rfl⟩
  · rw [zero_add]
    rcases hv with ⟨t, rfl, rfl⟩ | ⟨t, n, f, hn, rfl, hfits', rfl⟩
    · obtain ⟨r, hr⟩ := zero_add_zero_unpacked .binary64 s t
      rw [hr]
      exact isRounded_zero r
    · exact isRounded_of_fits hfits' hn
  · rcases hv with ⟨t, rfl, rfl⟩ | ⟨t, n, f, hn, rfl, hfits', rfl⟩
    · rw [add_zero]
      exact isRounded_of_fits hfits hm
    · rw [← apply_decreaseExponent s m (min_le_left e f),
        ← apply_decreaseExponent t n (min_le_right e f), ← add_mul, ← Int.cast_add]
      exact isRounded_normalize _ _

theorem sub_eq_add_neg_unpacked (spec : Format) (u v : UnpackedFloat) :
    UnpackedFloat.sub spec u v = UnpackedFloat.add spec u v.neg := by
  have happly : ∀ (t : Sign) (k : ℤ), (-t).apply k = -t.apply k := by
    intro t k
    cases t
    · exact (neg_neg k).symm
    · rfl
  cases u with
  | finite s m e hm =>
    cases v with
    | finite t n f hn =>
      simp only [UnpackedFloat.sub, UnpackedFloat.add, UnpackedFloat.neg, happly, sub_eq_add_neg]
    | _ => rfl
  | _ => cases v <;> rfl

theorem add_exponent_le {n : ℕ} {f : ℤ} (h : Fits m e) (h' : Fits n f) (hm : 0 < m) (hn : 0 < n) :
    e + f ≤ Format.targetExponent .binary64 (totalExponent (m * n) (e + f)) := by
  rw [targetExponent_eq, totalExponent]
  have hlog : (2 ^ 52 ≤ m ∨ 2 ^ 52 ≤ n) → 52 ≤ (m * n).log2 := by
    intro hlarge
    rw [Nat.le_log2 (Nat.mul_pos hm hn).ne']
    rcases hlarge with hlarge | hlarge
    · exact hlarge.trans (Nat.le_mul_of_pos_right m hn)
    · exact hlarge.trans (Nat.le_mul_of_pos_left n hm)
  rcases h.normal with he | hm52
  · rcases h'.normal with hf | hn52
    · omega
    · have := hlog (.inr hn52)
      omega
  · have := hlog (.inl hm52)
    omega

theorem isRounded_mul_unpacked (hu : Stands u p) (hv : Stands v q) :
    IsRounded (p * q) (.ofModel (.pack (UnpackedFloat.mul .binary64 u v))) := by
  rcases hu with ⟨s, rfl, rfl⟩ | ⟨s, m, e, hm, rfl, hfits, rfl⟩
  · rw [zero_mul]
    rcases hv with ⟨t, rfl, rfl⟩ | ⟨t, n, f, hn, rfl, hfits', rfl⟩
    · exact isRounded_zero (s * t)
    · exact isRounded_zero (s * t)
  · rcases hv with ⟨t, rfl, rfl⟩ | ⟨t, n, f, hn, rfl, hfits', rfl⟩
    · rw [mul_zero]
      exact isRounded_zero (s * t)
    · have hpos : 0 < m * n := Nat.mul_pos hm hn
      have hvalue : sgn (isNegative s) * (m * 2 ^ e) * (sgn (isNegative t) * (n * 2 ^ f)) =
          sgn (isNegative (s * t)) * (((m * n : ℕ) : ℚ) * 2 ^ (e + f)) := by
        rw [sgn_mul, zpow_add₀ two_ne_zero]
        push_cast
        ring
      rw [hvalue]
      exact isRounded_roundWithAccuracy (by exact_mod_cast hpos) (shows_exact _)
        (add_exponent_le hfits hfits' hm hn) (isUnitExponent_target hpos le_rfl (lt_add_one _))

/-- A remainder tells the two bits after the whole part of a quotient. -/
theorem shows_quotient (k : ℕ) {n : ℕ} (hn : 0 < n) :
    Shows (.ofMantissaAndAccuracy (k / n) (UnpackedFloat.accuracyOfFraction (k % n) n))
      ((k : ℚ) / n) := by
  have hpos : (0 : ℚ) < n := by exact_mod_cast hn
  have hlt : ((k % n : ℕ) : ℚ) / n < 1 := by
    rw [div_lt_one hpos]
    exact_mod_cast Nat.mod_lt k hn
  have hzero : k % n = 0 ↔ ((k % n : ℕ) : ℚ) / n = 0 := by simp [hn.ne']
  have hnonneg : (0 : ℚ) ≤ ((k % n : ℕ) : ℚ) / n := by positivity
  have hhalf : (1 / 2 ≤ ((k % n : ℕ) : ℚ) / n ↔ n ≤ 2 * (k % n)) ∧
      (((k % n : ℕ) : ℚ) / n = 1 / 2 ↔ 2 * (k % n) = n) := by
    rw [div_le_div_iff₀ two_pos hpos, div_eq_div_iff hpos.ne' two_ne_zero]
    norm_cast
    constructor <;> omega
  rw [cast_div_eq k hn, UnpackedFloat.accuracyOfFraction]
  generalize ((k % n : ℕ) : ℚ) / n = x at hlt hzero hnonneg hhalf
  generalize k % n = r at hzero hhalf
  generalize k / n = a
  split
  · next hr =>
    rw [hzero.mp hr, add_zero]
    exact shows_exact a
  · next hr =>
    have hx : x ≠ 0 := hzero.not.mp hr
    rcases Nat.lt_trichotomy (2 * r) n with h | h | h
    · rw [Nat.compare_eq_lt.mpr h]
      have hlow : x < 1 / 2 := not_le.mp (hhalf.1.not.mpr (by omega))
      exact shows_add hnonneg hlt (iff_of_false Bool.false_ne_true hlow.not_ge)
        (iff_of_true rfl ⟨hx, hlow.ne⟩)
    · rw [Nat.compare_eq_eq.mpr h]
      have heq : x = 1 / 2 := hhalf.2.mpr h
      exact shows_add hnonneg hlt (iff_of_true rfl heq.ge)
        (iff_of_false Bool.false_ne_true fun hne => hne.2 heq)
    · rw [Nat.compare_eq_gt.mpr h]
      have hhigh : 1 / 2 < x := lt_of_le_of_ne (hhalf.1.mpr h.le)
        fun heq => absurd (hhalf.2.mp heq.symm) h.ne'
      exact shows_add hnonneg hlt (iff_of_true rfl hhigh.le) (iff_of_true rfl ⟨hx, hhigh.ne'⟩)

theorem log2_le_log2_div (k : ℕ) {n : ℕ} (hn : 0 < n) : k.log2 ≤ (k / n).log2 + n.log2 + 1 := by
  rcases Nat.eq_zero_or_pos k with rfl | hk
  · simp
  · rw [← Nat.lt_succ_iff, Nat.log2_lt hk.ne']
    have hdiv : k < (k / n + 1) * n := by
      have := Nat.lt_div_mul_add hn (a := k)
      rw [Nat.add_mul, Nat.one_mul]
      omega
    calc k < (k / n + 1) * n := hdiv
      _ ≤ 2 ^ ((k / n).log2 + 1) * 2 ^ (n.log2 + 1) :=
          Nat.mul_le_mul Nat.lt_log2_self Nat.lt_log2_self.le
      _ = 2 ^ ((k / n).log2 + n.log2 + 1 + 1) := by
          rw [← Nat.pow_add]
          congr 1
          omega

theorem divCore_exponent {n k : ℕ} {t : ℤ} (hn : 0 < n)
    (ht : t ≤ Format.targetExponent .binary64 ((k.log2 : ℤ) - n.log2 + t)) :
    t ≤ Format.targetExponent .binary64 (totalExponent (k / n) t) ∧
      IsUnitExponent ((k : ℚ) / n * 2 ^ t)
        (Format.targetExponent .binary64 (totalExponent (k / n) t)) := by
  have hlog := log2_le_log2_div k hn
  have hpos : (0 : ℚ) < n := by exact_mod_cast hn
  have hlow := (shows_quotient k hn).low
  have hhigh := (shows_quotient k hn).high
  rw [mantissa_ofMantissaAndAccuracy] at hlow hhigh
  -- If nothing is left of the whole part, its units are the least that there are.
  rcases Nat.eq_zero_or_pos (k / n) with h0 | hdiv
  · have hlt : k < n := (Nat.div_eq_zero_iff.mp h0).resolve_left hn.ne'
    have hle : k.log2 ≤ n.log2 := by
      rcases Nat.eq_zero_or_pos k with rfl | hk
      · simp
      · exact (Nat.le_log2 hn.ne').mpr ((Nat.log2_self_le hk.ne').trans hlt.le)
    rw [targetExponent_eq] at ht
    have htiny : Format.targetExponent .binary64 (totalExponent (k / n) t) = -1074 := by
      rw [targetExponent_eq, totalExponent, h0]
      simp
      omega
    rw [htiny]
    refine ⟨by omega, le_rfl, ?_, .inl rfl⟩
    have hone : (k : ℚ) / n < 1 := by
      rw [div_lt_one hpos]
      exact_mod_cast hlt
    calc (k : ℚ) / n * 2 ^ t ≤ 1 * 2 ^ t := by gcongr
      _ = 2 ^ t := by ring
      _ < 2 ^ (53 + -1074 : ℤ) := zpow_lt_zpow_right₀ one_lt_two (by omega)
  · refine ⟨?_, isUnitExponent_target hdiv hlow hhigh⟩
    rw [targetExponent_eq] at ht ⊢
    rw [totalExponent]
    omega

theorem isRounded_div_unpacked (hu : Stands u p) (hv : Stands v q) (hq : q ≠ 0) :
    IsRounded (p / q) (.ofModel (.pack (UnpackedFloat.div .binary64 u v))) := by
  obtain ⟨t, n, f, hn, rfl, hfits', rfl⟩ := hv.resolve_left fun ⟨_, _, h0⟩ => hq h0
  rcases hu with ⟨s, rfl, rfl⟩ | ⟨s, m, e, hm, rfl, hfits, rfl⟩
  · rw [zero_div]
    exact isRounded_zero (s / t)
  · generalize ht : min (e - f)
      (Format.targetExponent .binary64 (totalExponent m e - totalExponent n f)) = r
    generalize hk : (e - f - r).toNat = k
    have hkr : (k : ℤ) = e - f - r := by omega
    have hdiv : UnpackedFloat.div .binary64 (.finite s m e hm) (.finite t n f hn) =
        UnpackedFloat.roundWithAccuracy .binary64 (s / t) (m <<< k / n) r
          (UnpackedFloat.accuracyOfFraction (m <<< k % n) n) := by
      simp only [UnpackedFloat.div, UnpackedFloat.divCore, ht, hk]
    have hshift : m <<< k = 2 ^ k * m := by rw [Nat.shiftLeft_eq, Nat.mul_comm]
    have hvalue : sgn (isNegative s) * (m * 2 ^ e) / (sgn (isNegative t) * (n * 2 ^ f)) =
        sgn (isNegative (s / t)) * (((m <<< k : ℕ) : ℚ) / n * 2 ^ r) := by
      have hpow : (2 : ℚ) ^ e = 2 ^ f * (2 ^ k * 2 ^ r) := by
        rw [← zpow_natCast, ← zpow_add₀ two_ne_zero, ← zpow_add₀ two_ne_zero, hkr]
        congr 1
        ring
      rw [sgn_div, hpow, hshift]
      push_cast
      field_simp
    have hunits : r ≤ Format.targetExponent .binary64 (((m <<< k).log2 : ℤ) - n.log2 + r) := by
      have htotal : ((m <<< k).log2 : ℤ) - n.log2 + r = totalExponent m e - totalExponent n f := by
        rw [hshift, log2_two_pow_mul k hm, totalExponent, totalExponent]
        push_cast
        rw [hkr]
        ring
      rw [htotal, ← ht]
      exact min_le_right _ _
    obtain ⟨he, hu⟩ := divCore_exponent hn hunits
    rw [hdiv, hvalue]
    refine isRounded_roundWithAccuracy ?_ (shows_quotient _ hn) he hu
    rw [hshift]
    positivity

end Values

section Doubles

variable {x y : Float} {p q : ℚ}

theorem isRounded_add (hx : Denotes x p) (hy : Denotes y q) : IsRounded (p + q) (x + y) :=
  isRounded_add_unpacked hx.stands hy.stands

theorem isRounded_sub (hx : Denotes x p) (hy : Denotes y q) : IsRounded (p - q) (x - y) := by
  have hsum := isRounded_add_unpacked hx.stands hy.stands.neg
  rwa [← sub_eq_add_neg, ← sub_eq_add_neg_unpacked] at hsum

theorem isRounded_mul (hx : Denotes x p) (hy : Denotes y q) : IsRounded (p * q) (x * y) :=
  isRounded_mul_unpacked hx.stands hy.stands

theorem isRounded_div (hx : Denotes x p) (hy : Denotes y q) (hq : q ≠ 0) :
    IsRounded (p / q) (x / y) :=
  isRounded_div_unpacked hx.stands hy.stands hq

theorem Denotes.isFinite (h : Denotes x q) : isFinite x := by
  obtain ⟨negative, m, e, hx, -⟩ := h
  exact isFinite_iff.mpr ⟨negative, m, e, hx⟩

theorem Denotes.isZero_iff (h : Denotes x q) :
    Scalar.isZero x = true ↔ q = 0 := by
  obtain ⟨negative, m, e, hx, rfl⟩ := h
  rw [isZero_iff_datum, hx]
  have hsgn : sgn negative ≠ 0 := by cases negative <;> norm_num [sgn]
  have hunit : (2 : ℚ) ^ e ≠ 0 := by positivity
  constructor
  · rintro ⟨negative', e', h0⟩
    cases h0
    simp
  · intro h0
    have hm : m = 0 := by simpa [hsgn, hunit] using h0
    exact ⟨negative, e, by rw [hm]⟩

theorem abs_sgn_mul (negative : Bool) (q : ℚ) : |sgn negative * q| = |q| := by
  cases negative <;> simp [sgn]

theorem beq_of_denotes (hx : Denotes x q) (hy : Denotes y q) : Scalar.beq x y = true := by
  have hzero : ∀ {m : ℕ} {e : ℤ} {negative : Bool}, 0 < m →
      sgn negative * ((m : ℚ) * 2 ^ e) ≠ 0 := by
    intro m e negative hm
    rw [← abs_ne_zero, abs_sgn_mul]
    positivity
  rw [beq_iff, UnpackedFloat.beq_iff_ne_notANumber_and_eq]
  rcases hx.stands with ⟨s, hu, rfl⟩ | ⟨s, m, e, hm, hu, hfits, rfl⟩ <;>
    rcases hy.stands with ⟨t, hv, hq⟩ | ⟨t, n, f, hn, hv, hfits', hq⟩
  · cases s <;> cases t <;> simp [hu, hv]
  · exact absurd hq.symm (hzero hn)
  · exact absurd hq (hzero hm)
  · have hsize : (m : ℚ) * 2 ^ e = n * 2 ^ f := by
      have habs := congrArg abs hq
      rwa [abs_sgn_mul, abs_sgn_mul, abs_of_nonneg (by positivity),
        abs_of_nonneg (by positivity)] at habs
    have hexponent := hfits'.isUnitExponent
    rw [← hsize] at hexponent
    obtain rfl := hexponent.unique hfits.isUnitExponent
    obtain rfl : m = n := by
      have hunits : (m : ℚ) = n := mul_right_cancel₀ (by positivity) hsize
      exact_mod_cast hunits
    have hsign : s = t := by
      have hsgn := mul_right_cancel₀ (by positivity) hq
      revert hsgn
      cases s <;> cases t <;> norm_num [sgn, isNegative]
    simp [hu, hv, hsign]

theorem IsRounded.exists_denotes (h : IsRounded q x) (hq : |q| < 2 ^ (1023 : ℤ)) :
    ∃ (negative : Bool) (m : ℕ) (e : ℤ), q = sgn negative * |q| ∧ IsUnitExponent |q| e ∧
      IsNearest (|q| / 2 ^ e) m ∧ Denotes x (sgn negative * (m * 2 ^ e)) := by
  obtain ⟨negative, num, den, hd, rfl, rfl⟩ := h
  have habs : |sgn negative * ((num : ℚ) / den)| = num / den := by
    rw [abs_sgn_mul, abs_of_nonneg (div_nonneg (Nat.cast_nonneg _) (Nat.cast_nonneg _))]
  rw [habs] at hq ⊢
  obtain ⟨e, he⟩ := exists_isUnitExponent num hd
  have hm := isNearest_scaled two_pos num hd e
  have hmost : e ≤ 970 := by
    rcases he.fills with rfl | hfills
    · norm_num
    · have hlt := hfills.trans_lt hq
      rw [zpow_lt_zpow_iff_right₀ one_lt_two] at hlt
      omega
  obtain ⟨n, f, hdatum, -, hvalue⟩ := exists_datum_nearest negative hd he hm hmost
  exact ⟨negative, _, e, rfl, he, hm, negative, n, f, hdatum, by rw [hvalue]⟩

theorem eq_sgn_mul_abs {negative : Bool} (h : q = sgn negative * |q|) (hnear : |q - p| ≤ |q|) :
    p = sgn negative * |p| := by
  obtain ⟨hlow, hhigh⟩ := abs_le.mp hnear
  cases negative
  · have hone : sgn false = 1 := rfl
    rw [hone] at h ⊢
    rw [abs_of_nonneg (by linarith)]
    ring
  · have hone : sgn true = -1 := rfl
    rw [hone] at h ⊢
    rw [abs_of_nonpos (by linarith)]
    ring

/-- A value very near to a whole number of less than 2^53 is rounded to that. -/
theorem IsRounded.denotes_int_of_near {k : ℤ} (h : IsRounded q x) (hk : |k| < 2 ^ 53)
    (hnear : |q - k| ≤ |q| / 2 ^ 60) : Denotes x k := by
  have hcast : |(k : ℚ)| = (k.natAbs : ℕ) := by
    rw [Nat.cast_natAbs, Int.cast_abs]
  have hdiff : abs (|q| - |(k : ℚ)|) ≤ |q| / 2 ^ 60 := (abs_abs_sub_abs_le q k).trans hnear
  have hsmall : |q| < 2 ^ (53 : ℤ) := by
    have hle : |(k : ℚ)| ≤ 2 ^ 53 - 1 := by exact_mod_cast Int.le_sub_one_of_lt hk
    have hhigh := (abs_le.mp hdiff).2
    norm_num at hle hhigh ⊢
    linarith
  obtain ⟨negative, m, e, hsign, he, hm, hx⟩ :=
    h.exists_denotes (hsmall.trans (zpow_lt_zpow_right₀ one_lt_two (by norm_num)))
  have hle : e ≤ 0 := by
    rcases he.fills with rfl | hfills
    · norm_num
    · have hlt := hfills.trans_lt hsmall
      rw [zpow_lt_zpow_iff_right₀ one_lt_two] at hlt
      omega
  -- In units of `2 ^ e` the whole number is one too.
  have hunits : |(k : ℚ)| / 2 ^ e = (k.natAbs * 2 ^ (-e).toNat : ℕ) := by
    rw [hcast, zpow_eq_div two_ne_zero, Int.toNat_of_nonpos hle]
    push_cast
    field_simp
  have hnearest : IsNearest (|q| / 2 ^ e) (k.natAbs * 2 ^ (-e).toNat) := by
    apply isNearest_of_lt
    have hunit : (0 : ℚ) < 2 ^ e := by positivity
    have hbits : |q| < 2 ^ 53 * 2 ^ e := by
      have hfits := he.fits
      rw [zpow_add₀ two_ne_zero] at hfits
      exact_mod_cast hfits
    rw [← hunits, ← sub_div, abs_div, abs_of_pos hunit, div_lt_iff₀ hunit]
    linarith
  have hvalue : (m : ℚ) * 2 ^ e = |(k : ℚ)| := by
    rw [hm.unique hnearest, ← hunits, div_mul_cancel₀ _ (by positivity)]
  have hsame : (k : ℚ) = sgn negative * |(k : ℚ)| := by
    refine eq_sgn_mul_abs hsign (hnear.trans ?_)
    rw [div_le_iff₀ (by positivity)]
    linarith [abs_nonneg q]
  rwa [hvalue, ← hsame] at hx

theorem IsRounded.denotes_int {k : ℤ} (h : IsRounded k x) (hk : |k| < 2 ^ 53) : Denotes x k := by
  refine h.denotes_int_of_near hk ?_
  rw [sub_self, abs_zero]
  positivity

theorem IsRounded.denotes_near (h : IsRounded q x) (hlow : 2 ^ (-1022 : ℤ) ≤ |q|)
    (hhigh : |q| < 2 ^ (1023 : ℤ)) : ∃ v, Denotes x v ∧ |v - q| ≤ |q| / 2 ^ 53 := by
  obtain ⟨negative, m, e, hsign, he, hm, hx⟩ := h.exists_denotes hhigh
  have hunit : (0 : ℚ) < 2 ^ e := by positivity
  have hfills : (2 : ℚ) ^ (52 + e) ≤ |q| := by
    rcases he.fills with rfl | hfills
    · exact hlow
    · exact hfills
  refine ⟨_, hx, ?_⟩
  have hdiff : |sgn negative * (m * 2 ^ e) - q| = abs (|q| - m * 2 ^ e) := by
    conv_lhs => rw [hsign]
    rw [← mul_sub, abs_sgn_mul, abs_sub_comm]
  rw [hdiff]
  refine (hm.abs_sub_le hunit).trans ?_
  rw [zpow_add₀ two_ne_zero] at hfills
  rw [div_le_div_iff₀ two_pos (by positivity)]
  calc (2 : ℚ) ^ e * 2 ^ 53 = 2 ^ (52 : ℤ) * 2 ^ e * 2 := by norm_num; ring
    _ ≤ |q| * 2 := by gcongr

theorem denotes_of_whole? {k : ℤ} (h : whole? x = some k) : Denotes x k := by
  rw [whole?] at h
  split at h
  · next negative m e hx =>
    refine ⟨negative, m, e, hx, ?_⟩
    have hvalue := quotient_value m e
    have hden : 0 < (quotient m e).2 := Nat.two_pow_pos _
    simp only at h
    generalize (quotient m e).1 = num at h hvalue
    generalize (quotient m e).2 = den at h hvalue hden
    by_cases hmod : num % den = 0
    · rw [if_pos hmod, Option.some.injEq] at h
      have hwhole : ((num / den : ℕ) : ℚ) = num / den := by
        rw [Nat.cast_div (Nat.dvd_of_mod_eq_zero hmod) (by exact_mod_cast hden.ne')]
      rw [← hvalue, ← hwhole, ← h]
      generalize num / den = a
      cases negative <;> simp [sgn]
    · rw [if_neg hmod] at h
      cases h
  · cases h

end Doubles

end Linework.Binary64
