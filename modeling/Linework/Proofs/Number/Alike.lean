import Linework.Proofs.Number.NotBelow

/-!
# Doubles as numbers

Two doubles are alike if they are the same number; the two zeros are. Sums of what is alike are
alike, and adding a zero or multiplying by one changes no number, for nothing is rounded then.
-/

set_option autoImplicit false

namespace Linework

/-- The same, or equal as numbers. -/
def Scalar.Alike {α : Type} [Scalar α] (x y : α) : Prop := x = y ∨ Scalar.beq x y

namespace Binary64

open Float.Model (UnpackedFloat Format totalExponent)
open Float.Model.UnpackedFloat (Sign ExtendedMantissa)
open Scalar (Alike isZero)

section Unpacked

variable {u : UnpackedFloat} {s : Sign} {m : Nat} {e : Int} {hm : 0 < m}

theorem add_comm_unpacked (spec : Format) (u v : UnpackedFloat) :
    UnpackedFloat.add spec u v = UnpackedFloat.add spec v u := by
  cases u with
  | notANumber => cases v <;> rfl
  | infinity s =>
    cases v with
    | infinity t => cases s <;> cases t <;> rfl
    | _ => rfl
  | zero s =>
    cases v with
    | zero t => cases s <;> cases t <;> rfl
    | _ => rfl
  | finite s m e hm =>
    cases v with
    | finite t n f hn =>
      simp only [UnpackedFloat.add]
      rw [Int.min_comm f e, Int.add_comm]
    | _ => rfl

theorem add_zero_unpacked (spec : Format) (hu : ∀ s, u ≠ .zero s) (t : Sign) :
    UnpackedFloat.add spec u (.zero t) = u := by
  cases u with
  | zero s => exact absurd rfl (hu s)
  | _ => rfl

theorem zero_add_zero_unpacked (spec : Format) (s t : Sign) :
    ∃ r, UnpackedFloat.add spec (.zero s) (.zero t) = .zero r := by
  cases s <;> cases t <;> exact ⟨_, rfl⟩

theorem targetExponent_eq (t : Int) :
    Format.targetExponent .binary64 t = max (t - 53) (-1074) := rfl

theorem log2_one_append (m : BitVec 52) : (1#1 ++ m).toNat.log2 = 52 := by
  have hm := m.isLt
  have ht : (1#1 ++ m).toNat = 2 ^ 52 + m.toNat := by
    rw [BitVec.toNat_append, ← Nat.shiftLeft_add_eq_or_of_lt hm]
    rfl
  rw [Nat.log2_eq_iff (by omega)]
  omega

/-- The exponent of a double that is taken apart is the one that rounding would choose for it. -/
theorem targetExponent_of_unpack {b : BitVec (Format.binary64).numBits}
    (h : UnpackedFloat.unpack .binary64 b = .finite s m e hm) :
    Format.targetExponent .binary64 (totalExponent m e) = e := by
  rw [targetExponent_eq, totalExponent]
  simp only [UnpackedFloat.unpack] at h
  split at h
  · split at h <;> cases h
  · split at h
    · next hmin =>
      split at h
      · cases h
      · cases h
        have hlt : (UnpackedFloat.unpackMantissa b).toNat < 2 ^ 52 :=
          (UnpackedFloat.unpackMantissa b).isLt
        have hlog := (Nat.log2_lt (by omega)).mpr hlt
        rw [hmin]
        change max (_ + 1 + (0 - (1023 + 52) + 1) - 53) (-1074 : Int) = 0 - (1023 + 52) + 1
        omega
    · next hmin =>
      cases h
      have hpos : 0 < (UnpackedFloat.unpackExponent b).toNat :=
        Nat.pos_of_ne_zero fun hz => hmin (BitVec.eq_of_toNat_eq hz)
      rw [log2_one_append]
      change max (52 + 1 + (((UnpackedFloat.unpackExponent b).toNat : Int) - (1023 + 52)) - 53)
        (-1074) = ((UnpackedFloat.unpackExponent b).toNat : Int) - (1023 + 52)
      omega

theorem shiftRight_two_pow_mul (k m : Nat) :
    (⟨2 ^ k * m, false, false⟩ : ExtendedMantissa) >>> k = ⟨m, false, false⟩ := by
  change Nat.repeat _ k _ = _
  induction k generalizing m with
  | zero => simp [Nat.repeat]
  | succ k ih =>
    rw [Nat.repeat, Nat.pow_succ, Nat.mul_assoc, ih]
    simp [ExtendedMantissa.shiftRightOne]

theorem log2_two_pow_mul (k : Nat) (hm : 0 < m) : (2 ^ k * m).log2 = k + m.log2 := by
  have hne := Nat.ne_of_gt hm
  have hpos := Nat.two_pow_pos k
  rw [Nat.log2_eq_iff (Nat.mul_pos hpos hm).ne', Nat.pow_add, Nat.add_assoc, Nat.pow_add 2 k]
  exact ⟨Nat.mul_le_mul_left _ (Nat.log2_self_le hne),
    Nat.mul_lt_mul_of_pos_left Nat.lt_log2_self hpos⟩

/-- A product by one has 52 zeros too many, which are shifted out again. -/
theorem one_mul_unpacked (h : Format.targetExponent .binary64 (totalExponent m e) = e) :
    UnpackedFloat.mul .binary64 (.finite .positive (2 ^ 52) (-52) (by decide)) (.finite s m e hm) =
      .finite s m e hm := by
  have hsame : totalExponent (2 ^ 52 * m) (-52 + e) = totalExponent m e := by
    rw [totalExponent, totalExponent, log2_two_pow_mul 52 hm]
    omega
  have hfirst : UnpackedFloat.shiftToTargetExponent .binary64 (2 ^ 52 * m) (-52 + e) .exact =
      (⟨m, false, false⟩, e) := by
    have hk : (e - (-52 + e)).toNat = 52 := by omega
    rw [UnpackedFloat.shiftToTargetExponent, hsame, h, UnpackedFloat.shiftToExponent, hk]
    simp only [ExtendedMantissa.ofMantissaAndAccuracy, shiftRight_two_pow_mul, Prod.mk.injEq,
      true_and]
    omega
  have hsecond : UnpackedFloat.shiftToTargetExponent .binary64 m e .exact =
      (⟨m, false, false⟩, e) := by
    have hk := shiftRight_two_pow_mul 0 m
    rw [Nat.pow_zero, Nat.one_mul] at hk
    rw [UnpackedFloat.shiftToTargetExponent, h, UnpackedFloat.shiftToExponent]
    simp [ExtendedMantissa.ofMantissaAndAccuracy, hk]
  have hsign : Sign.positive * s = s := by cases s <;> rfl
  rw [UnpackedFloat.mul, hsign, UnpackedFloat.roundWithAccuracy, hfirst]
  simp only [ExtendedMantissa.roundedMantissa, ExtendedMantissa.accuracy,
    UnpackedFloat.Accuracy.roundToNearestEven, hsecond]
  exact dif_neg (Nat.ne_of_gt hm)

theorem components_neg (spec : Format) (u : UnpackedFloat) :
    UnpackedFloat.unpackExponent (u.neg.pack spec) = UnpackedFloat.unpackExponent (u.pack spec) ∧
      UnpackedFloat.unpackMantissa (u.neg.pack spec) =
        UnpackedFloat.unpackMantissa (u.pack spec) := by
  cases u with
  | finite s m e hm =>
    simp only [UnpackedFloat.neg, UnpackedFloat.pack]
    split
    · simp [UnpackedFloat.packedInfinity]
    · split <;> simp
  | _ =>
    simp [UnpackedFloat.neg, UnpackedFloat.pack, UnpackedFloat.packedInfinity,
      UnpackedFloat.packedZero]

end Unpacked

section Doubles

variable {x y z : Float}

theorem ofModel_unpack (x : Float) : Float.ofModel (.pack x.toModel.unpack) = x := by
  have h := UnpackedFloat.pack_unpack_of_valid x.toModel.valid
  rcases x with ⟨⟨b, hb⟩⟩
  simp only [Float.Model.pack, Float.Model.unpack] at h ⊢
  simp only [h, UInt64.ofBitVec_toBitVec]

theorem eq_of_unpack (h : x.toModel.unpack = y.toModel.unpack) : x = y := by
  rw [← ofModel_unpack x, h, ofModel_unpack y]

theorem beq_iff : Scalar.beq x y ↔ x.toModel.unpack.beq y.toModel.unpack := Iff.rfl

theorem isZero_iff : isZero x ↔ ∃ s, x.toModel.unpack = .zero s := by
  rw [isZero, beq_iff, unpack_zero, UnpackedFloat.beq_iff_ne_notANumber_and_eq]
  constructor
  · rintro ⟨-, -, h | ⟨-, h⟩ | ⟨h, -⟩⟩
    · exact ⟨_, h⟩
    · cases h
    · exact ⟨_, h⟩
  · rintro ⟨_ | _, h⟩ <;> simp [h]

theorem alike_iff : Alike x y ↔ x = y ∨ isZero x ∧ isZero y := by
  rw [Alike, beq_iff, UnpackedFloat.beq_iff_ne_notANumber_and_eq, isZero_iff, isZero_iff]
  constructor
  · rintro (h | ⟨-, -, h | ⟨hx, hy⟩ | ⟨hx, hy⟩⟩)
    · exact .inl h
    · exact .inl (eq_of_unpack h)
    · exact .inr ⟨⟨_, hx⟩, _, hy⟩
    · exact .inr ⟨⟨_, hx⟩, _, hy⟩
  · rintro (h | ⟨⟨s, hx⟩, t, hy⟩)
    · exact .inl h
    · cases s <;> cases t <;> simp [hx, hy]

def bits (x : Float) : BitVec (Format.binary64).numBits := x.toModel.toBits.toBitVec

theorem unpack_bits (x : Float) : UnpackedFloat.unpack .binary64 (bits x) = x.toModel.unpack := rfl

theorem pack_unpack (x : Float) : x.toModel.unpack.pack .binary64 = bits x :=
  UnpackedFloat.pack_unpack_of_valid x.toModel.valid

theorem isZero_iff_components :
    isZero x ↔ UnpackedFloat.unpackExponent (bits x) = 0 ∧
      UnpackedFloat.unpackMantissa (bits x) = 0 := by
  rw [isZero_iff, ← unpack_bits]
  constructor
  · rintro ⟨s, h⟩
    have hbits := (UnpackedFloat.unpack_eq_zero_iff_of_valid x.toModel.valid).mp h
    change bits x = _ at hbits
    simp [hbits, UnpackedFloat.packedZero]
  · rintro ⟨hexponent, hmantissa⟩
    refine ⟨.ofBitVec (UnpackedFloat.unpackSign (bits x)), ?_⟩
    simp [UnpackedFloat.unpack, hexponent, hmantissa]

theorem isZero_neg (x : Float) : isZero (-x) = isZero x := by
  have hneg : bits (-x) = x.toModel.unpack.neg.pack .binary64 := rfl
  obtain ⟨hexponent, hmantissa⟩ := components_neg .binary64 x.toModel.unpack
  rw [Bool.eq_iff_iff, isZero_iff_components, isZero_iff_components, hneg, hexponent, hmantissa,
    pack_unpack]

theorem isZero_magnitude (x : Float) : isZero (Scalar.magnitude x) = isZero x := by
  rw [Scalar.magnitude]
  split
  · exact isZero_neg x
  · rfl

theorem add_comm (x y : Float) : x + y = y + x :=
  congrArg (fun u => Float.ofModel (.pack u))
    (add_comm_unpacked .binary64 x.toModel.unpack y.toModel.unpack)

theorem add_isZero_alike (x : Float) (h : isZero z) : Alike (x + z) x := by
  obtain ⟨t, hz⟩ := isZero_iff.mp h
  have hsum : x + z =
      Float.ofModel (.pack (UnpackedFloat.add .binary64 x.toModel.unpack (.zero t))) := by
    rw [← hz]
    rfl
  rw [alike_iff]
  by_cases hx : isZero x
  · obtain ⟨s, hs⟩ := isZero_iff.mp hx
    obtain ⟨r, hr⟩ := zero_add_zero_unpacked .binary64 s t
    refine .inr ⟨isZero_iff.mpr ⟨r, ?_⟩, hx⟩
    rw [hsum, hs, hr]
    exact UnpackedFloat.unpack_packedZero
  · left
    rw [hsum, add_zero_unpacked .binary64 (fun s hs => hx (isZero_iff.mpr ⟨s, hs⟩)), ofModel_unpack]

theorem toNat_unpackExponent_bits (x : Float) :
    (UnpackedFloat.unpackExponent (bits x)).toNat = x.toBits.toNat / 2 ^ 52 % 2 ^ 11 := by
  rw [UnpackedFloat.unpackExponent_def, BitVec.extractLsb'_toNat, Nat.shiftRight_eq_div_pow]
  rfl

theorem unpackExponent_ne_of_isFinite (h : isFinite x) :
    UnpackedFloat.unpackExponent (bits x) ≠ -1#_ := by
  intro hmax
  have hfield := toNat_unpackExponent_bits x
  rw [hmax] at hfield
  have hmaximal : x.toBits.toNat / 2 ^ 52 % 2 ^ 11 = 2047 := hfield.symm
  have hdatum : datum x = if x.toBits.toNat % 2 ^ 52 = 0 then
      .infinite (decide (2 ^ 63 ≤ x.toBits.toNat)) else .nan := if_pos hmaximal
  rw [isFinite, hdatum] at h
  by_cases hfraction : x.toBits.toNat % 2 ^ 52 = 0
  · rw [if_pos hfraction] at h
    cases h
  · rw [if_neg hfraction] at h
    cases h

theorem unpack_of_isFinite (h : isFinite x) :
    (∃ s, x.toModel.unpack = .zero s) ∨ ∃ s m e hm, x.toModel.unpack = .finite s m e hm ∧
      Format.targetExponent .binary64 (totalExponent m e) = e := by
  rcases hu : x.toModel.unpack with s | _ | s | ⟨s, m, e, hm⟩
  case zero => exact .inl ⟨s, rfl⟩
  case finite => exact .inr ⟨s, m, e, hm, rfl, targetExponent_of_unpack hu⟩
  all_goals
    rw [← unpack_bits, UnpackedFloat.unpack, if_neg (unpackExponent_ne_of_isFinite h)] at hu
    split at hu
    · split at hu <;> cases hu
    · cases hu

theorem isZero_sub (hx : isZero x) (hy : isZero y) : isZero (x - y) := by
  obtain ⟨s, hs⟩ := isZero_iff.mp hx
  obtain ⟨t, ht⟩ := isZero_iff.mp hy
  have hdifference : x - y = Float.ofModel
      (.pack (UnpackedFloat.sub .binary64 x.toModel.unpack y.toModel.unpack)) := rfl
  rw [hdifference, isZero_iff, hs, ht]
  cases s <;> cases t <;> exact ⟨_, UnpackedFloat.unpack_packedZero⟩

theorem isZero_zero_mul (h : isFinite y) : isZero (Scalar.whole 0 * y) := by
  have hproduct : Scalar.whole 0 * y =
      Float.ofModel (.pack (UnpackedFloat.mul .binary64 (.zero .positive) y.toModel.unpack)) := rfl
  rw [hproduct, isZero_iff]
  rcases unpack_of_isFinite h with ⟨s, hs⟩ | ⟨s, m, e, hm, hs, -⟩
  all_goals
    rw [hs]
    exact ⟨_, UnpackedFloat.unpack_packedZero⟩

theorem one_mul (h : isFinite y) : Scalar.whole 1 * y = y := by
  have hone : (Scalar.whole 1 : Float).toModel.unpack =
      .finite .positive (2 ^ 52) (-52) (by decide) := rfl
  have hproduct : Scalar.whole 1 * y = Float.ofModel (.pack (UnpackedFloat.mul .binary64
      (Scalar.whole 1 : Float).toModel.unpack y.toModel.unpack)) := rfl
  rw [hproduct, hone]
  rcases unpack_of_isFinite h with ⟨s, hs⟩ | ⟨s, m, e, hm, hs, ht⟩
  · have hzero : UnpackedFloat.mul .binary64 (.finite .positive (2 ^ 52) (-52) (by decide))
        (.zero s) = .zero s := by cases s <;> rfl
    rw [hs, hzero, ← hs, ofModel_unpack]
  · rw [hs, one_mul_unpacked ht, ← hs, ofModel_unpack]

end Doubles

end Binary64

namespace Scalar.Alike

open Binary64

theorem refl {α : Type} [Scalar α] (x : α) : Alike x x := .inl rfl

variable {x x' y y' z : Float}

theorem symm (h : Alike x y) : Alike y x := by
  rw [alike_iff] at h ⊢
  exact h.imp Eq.symm And.symm

theorem trans (h : Alike x y) (h' : Alike y z) : Alike x z := by
  rw [alike_iff] at h h' ⊢
  rcases h with rfl | ⟨hx, hy⟩
  · exact h'
  · rcases h' with rfl | ⟨-, hz⟩
    · exact .inr ⟨hx, hy⟩
    · exact .inr ⟨hx, hz⟩

theorem add_left (x : Float) (h : Alike y z) : Alike (x + y) (x + z) := by
  rcases alike_iff.mp h with rfl | ⟨hy, hz⟩
  · exact .refl _
  · exact (add_isZero_alike x hy).trans (add_isZero_alike x hz).symm

theorem add (hx : Alike x x') (hy : Alike y y') : Alike (x + y) (x' + y') := by
  have hleft : Alike (x + y) (x' + y) := by
    rw [add_comm x, add_comm x']
    exact add_left y hx
  exact hleft.trans (add_left x' hy)

end Scalar.Alike

end Linework
