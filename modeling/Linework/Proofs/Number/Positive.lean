import Linework.Proofs.Number.NotBelow

/-!
# Positive doubles

To refuse what is at most zero is not to ask for something positive: what is no number passes, for
it compares with nothing.
-/

set_option autoImplicit false

namespace Linework.Binary64

open Float.Model (UnpackedFloat)

theorem le_iff {x y : Float} :
    x ≤ y ↔ (x.toModel.unpack.compare y.toModel.unpack).any (·.isLE) = true := by
  change decide (((x.toModel.unpack.compare y.toModel.unpack).any (·.isLE)) = true) = true ↔ _
  rw [decide_eq_true_iff]

theorem unpack_literal_zero : (0 : Float).toModel.unpack = .zero .positive := rfl

theorem isNaN_iff {x : Float} : Scalar.isNaN x ↔ x.toModel.unpack = .notANumber := by
  have hself : Scalar.beq x x ↔ x.toModel.unpack.beq x.toModel.unpack := Iff.rfl
  rw [Scalar.isNaN, Bool.not_eq_true', ← Bool.not_eq_true, hself,
    UnpackedFloat.beq_iff_ne_notANumber_and_eq]
  simp

theorem not_le_zero_iff {x : Float} : ¬ x ≤ 0 ↔ 0 < x ∨ Scalar.isNaN x := by
  rw [le_iff, lt_iff, isNaN_iff, unpack_literal_zero]
  generalize x.toModel.unpack = u
  rcases u with (_ | _) | _ | s | ⟨_ | _, m, e, hm⟩ <;> simp [UnpackedFloat.compare]

theorem isNaN_of_positive {x : Float} (h : 0 < x) : Scalar.isNaN x = false := by
  rw [← Bool.not_eq_true, isNaN_iff]
  rw [lt_iff, unpack_literal_zero] at h
  intro hx
  rw [hx] at h
  cases h

end Linework.Binary64
