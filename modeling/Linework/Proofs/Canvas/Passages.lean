import Linework.Proofs.Canvas.Watched

/-!
# The passages of a run

A run passes through its operations, each of which finds a canvas, answers and leaves a canvas.
Operations can be left out of a run without a trace if a map of canvases shows nothing of what they
do, and if the operations that stay do not tell a canvas from what it is mapped to.
-/

set_option autoImplicit false

namespace Linework

/-- One operation in the course of a run. -/
structure Passage (σ α : Type) where
  op : Op α
  before : Canvas σ α
  outcome : Canvas.Outcome
  after : Canvas σ α

def Passage.map {σ α : Type} (f : Canvas σ α → Canvas σ α) (p : Passage σ α) : Passage σ α :=
  { p with before := f p.before, after := f p.after }

namespace Canvas

variable {σ α : Type} [Scalar α] [Surface σ α]

def passages : List (Op α) → Canvas σ α → List (Passage σ α)
  | [], _ => []
  | op :: rest, c => ⟨op, c, (step op c).1, (step op c).2⟩ :: passages rest (step op c).2

variable {f : Canvas σ α → Canvas σ α} (keep : Op α → Bool)
  (hkept : ∀ op, keep op = true → Act.Commutes f (act op))
  (hdropped : ∀ op, keep op = false → Act.Leaves f (act op))

include hkept hdropped

theorem passages_filter (ops : List (Op α)) (c : Canvas σ α) :
    passages (ops.filter keep) (f c) =
        ((passages ops c).filter fun p => keep p.op).map (Passage.map f) ∧
      (run (ops.filter keep) (f c)).2 = f (run ops c).2 := by
  induction ops generalizing c with
  | nil => exact ⟨rfl, rfl⟩
  | cons op rest ih =>
    obtain ⟨hpassages, hrun⟩ := ih (step op c).2
    cases hk : keep op with
    | true =>
      have hstep : step op (f c) = ((step op c).1, f (step op c).2) := hkept op hk c
      rw [List.filter_cons_of_pos hk, passages, passages, run_cons, run_cons, hstep,
        List.filter_cons_of_pos (p := fun p : Passage σ α => keep p.op) hk, List.map_cons]
      exact ⟨congrArg _ hpassages, hrun⟩
    | false =>
      have hop : ¬ keep op = true := Bool.eq_false_iff.mp hk
      rw [List.filter_cons_of_neg hop, passages, run_cons, ← hdropped op hk c,
        List.filter_cons_of_neg (p := fun p : Passage σ α => keep p.op) hop]
      exact ⟨hpassages, hrun⟩

end Canvas

end Linework
