import Mathlib
import Linework.Number.Scalar

/-!
# Doubles that are not below zero

What is not below zero stays so under sums, products and square roots; a magnitude is never
below zero. Minus zero is not below zero, and neither is what is no number.
-/

set_option autoImplicit false

namespace Linework.Binary64

open Float.Model (UnpackedFloat Format)
open Float.Model.UnpackedFloat (Sign)

inductive NotBelow : UnpackedFloat → Prop
  | infinite : NotBelow (.infinity .positive)
  | nan : NotBelow .notANumber
  | zero (s : Sign) : NotBelow (.zero s)
  | finite (m : Nat) (e : Int) (hm : 0 < m) : NotBelow (.finite .positive m e hm)

theorem not_lt_zero_iff {u : UnpackedFloat} (s : Sign) :
    ¬ u.compare (.zero s) = some .lt ↔ NotBelow u := by
  constructor
  · intro h
    rcases u with (_ | _) | _ | s | ⟨_ | _, m, e, hm⟩
    case infinity.negative => exact absurd rfl h
    case finite.negative => exact absurd rfl h
    all_goals constructor
  · rintro (_ | _ | _ | _) <;> simp [UnpackedFloat.compare]

theorem lt_iff {x y : Float} :
    x < y ↔ x.toModel.unpack.compare y.toModel.unpack = some .lt := by
  change decide ((x.toModel.unpack.compare y.toModel.unpack == some .lt) = true) = true ↔ _
  rw [decide_eq_true_iff, beq_iff_eq]

theorem unpack_zero : (Scalar.whole 0 : Float).toModel.unpack = .zero .positive := rfl

theorem unpack_one_mul_zero :
    (Scalar.whole 1 * Scalar.whole 0 : Float).toModel.unpack = .zero .positive := rfl

theorem blt_zero_iff {x : Float} :
    Scalar.blt x (Scalar.whole 0) = false ↔ NotBelow x.toModel.unpack := by
  rw [← not_lt_zero_iff .positive, ← unpack_zero, ← lt_iff]
  exact decide_eq_false_iff_not

theorem notBelow_unpack {spec : Format} {b : BitVec spec.numBits}
    (h : UnpackedFloat.unpackSign b = Sign.positive.toBitVec) :
    NotBelow (UnpackedFloat.unpack spec b) := by
  rw [UnpackedFloat.unpack, h, Sign.ofBitVec_toBitVec]
  split
  · split
    · exact .infinite
    · exact .nan
  · split
    · split
      · exact .zero _
      · exact .finite _ _ _
    · exact .finite _ _ _

/-- Rounding to a double puts no number below zero. -/
theorem notBelow_unpack_pack {u : UnpackedFloat} (h : NotBelow u) :
    NotBelow (UnpackedFloat.unpack .binary64 (UnpackedFloat.pack .binary64 u)) := by
  cases h with
  | infinite => exact notBelow_unpack (UnpackedFloat.unpackSign_packComponents _ _ _)
  | nan => exact notBelow_unpack (UnpackedFloat.unpackSign_packComponents _ _ _)
  | zero s =>
    rw [UnpackedFloat.pack, UnpackedFloat.unpack_packedZero]
    exact .zero _
  | finite m e hm =>
    apply notBelow_unpack
    rw [UnpackedFloat.pack]
    split
    · exact UnpackedFloat.unpackSign_packComponents _ _ _
    · split <;> exact UnpackedFloat.unpackSign_packComponents _ _ _

namespace NotBelow

variable {u v : UnpackedFloat}

theorem roundWithAccuracy (spec : Format) (m : Nat) (e : Int)
    (accuracy : UnpackedFloat.Accuracy) :
    NotBelow (UnpackedFloat.roundWithAccuracy spec .positive m e accuracy) := by
  simp only [UnpackedFloat.roundWithAccuracy]
  split
  · exact .zero _
  · exact .finite _ _ _

theorem normalize (spec : Format) {m : Int} (hm : 0 ≤ m) (e : Int) :
    NotBelow (UnpackedFloat.normalize spec m e .positive) := by
  rw [UnpackedFloat.normalize]
  split
  · next h =>
    rw [Int.compare_eq_lt] at h
    omega
  · exact .zero _
  · exact .roundWithAccuracy _ _ _ _

theorem add (spec : Format) (hu : NotBelow u) (hv : NotBelow v) :
    NotBelow (UnpackedFloat.add spec u v) := by
  cases hu with
  | infinite => cases hv <;> constructor
  | nan => exact .nan
  | zero s =>
    cases hv with
    | zero t => cases s <;> cases t <;> exact .zero _
    | _ => constructor
  | finite m e hm =>
    cases hv with
    | finite n f hn =>
      exact .normalize spec (Int.add_nonneg (Int.natCast_nonneg _) (Int.natCast_nonneg _)) _
    | _ => constructor

theorem mul (spec : Format) (hu : NotBelow u) (hv : NotBelow v) :
    NotBelow (UnpackedFloat.mul spec u v) := by
  cases hu with
  | finite m e hm =>
    cases hv with
    | finite n f hn => exact .roundWithAccuracy _ _ _ _
    | _ => constructor
  | _ => cases hv <;> constructor

theorem sub_zero (spec : Format) (hu : NotBelow u) (s : Sign) :
    NotBelow (UnpackedFloat.sub spec u (.zero s)) := by
  cases hu with
  | zero t => cases s <;> cases t <;> exact .zero _
  | _ => constructor

theorem sqrt (spec : Format) (u : UnpackedFloat) : NotBelow (UnpackedFloat.sqrt spec u) := by
  rcases u with (_ | _) | _ | s | ⟨_ | _, m, e, hm⟩
  case finite.positive => exact .roundWithAccuracy _ _ _ _
  all_goals constructor

theorem neg (h : ¬ NotBelow u) : NotBelow u.neg := by
  rcases u with (_ | _) | _ | s | ⟨_ | _, m, e, hm⟩
  case infinity.negative => exact .infinite
  case finite.negative => exact .finite _ _ _
  all_goals exact absurd (by constructor) h

end NotBelow

theorem blt_zero_ofModel {u : UnpackedFloat} (h : NotBelow u) :
    Scalar.blt (.ofModel (.pack u) : Float) (Scalar.whole 0) = false :=
  blt_zero_iff.mpr (notBelow_unpack_pack h)

variable {x y : Float}

theorem blt_zero_add (hx : Scalar.blt x (Scalar.whole 0) = false)
    (hy : Scalar.blt y (Scalar.whole 0) = false) :
    Scalar.blt (x + y) (Scalar.whole 0) = false :=
  blt_zero_ofModel (.add _ (blt_zero_iff.mp hx) (blt_zero_iff.mp hy))

theorem blt_zero_mul (hx : Scalar.blt x (Scalar.whole 0) = false)
    (hy : Scalar.blt y (Scalar.whole 0) = false) :
    Scalar.blt (x * y) (Scalar.whole 0) = false :=
  blt_zero_ofModel (.mul _ (blt_zero_iff.mp hx) (blt_zero_iff.mp hy))

theorem blt_zero_sub_zero (hx : Scalar.blt x (Scalar.whole 0) = false)
    {s : Sign} (hy : y.toModel.unpack = .zero s) :
    Scalar.blt (x - y) (Scalar.whole 0) = false := by
  have h := blt_zero_ofModel (.sub_zero .binary64 (blt_zero_iff.mp hx) s)
  rwa [← hy] at h

theorem blt_zero_sqrt (x : Float) : Scalar.blt (Scalar.sqrt x) (Scalar.whole 0) = false :=
  blt_zero_ofModel (.sqrt _ _)

theorem blt_zero_magnitude (x : Float) :
    Scalar.blt (Scalar.magnitude x) (Scalar.whole 0) = false := by
  rw [Scalar.magnitude]
  cases h : Scalar.blt x (Scalar.whole 0) with
  | false => exact h
  | true =>
    rw [if_pos rfl]
    exact blt_zero_ofModel (.neg fun hx => by simp [blt_zero_iff.mpr hx] at h)

end Linework.Binary64
