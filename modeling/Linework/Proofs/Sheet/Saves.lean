import Linework.Proofs.Canvas.Held
import Linework.Proofs.Sheet.Calls
import Mathlib.Data.List.Induction

/-!
# What is saved

A canvas and the sheet under it each keep a stack of what was saved. Saving puts the state on
both, restoring takes the latest from both, a reset empties both, and no other operation touches
them, whether it fails or not. So after every run the sheet has saved the transforms that were in
force at the saves that are still open.
-/

set_option autoImplicit false

namespace Linework

def Op.stack {α β : Type} (op : Op α) (x : β) (saved : List β) : List β :=
  match op with
  | .save => x :: saved
  | .restore => saved.tail
  | .reset => []
  | _ => saved

theorem Op.map_stack {α β γ : Type} (f : β → γ) (op : Op α) (x : β) (saved : List β) :
    (op.stack x saved).map f = op.stack (f x) (saved.map f) := by
  cases op <;> simp [stack]

theorem Op.stack_of_not_saving {α β : Type} (op : Op α) (h : op.isSaving = false) (x : β)
    (saved : List β) : op.stack x saved = saved := by
  cases op with
  | save | restore | revert | reset => cases h
  | _ => rfl

theorem Op.length_stack {α β γ : Type} (op : Op α) (x : β) (y : γ) {saved : List β}
    {saved' : List γ} (h : saved.length = saved'.length) :
    (op.stack x saved).length = (op.stack y saved').length := by
  cases op <;> simp [stack, h]

namespace Canvas

def saves {α : Type} (c : Canvas (Sheet α) α) : List Snapshot × List (Affine α) :=
  (c.saved, c.surface.saved)

section Stacking

variable {α : Type}

theorem exists_saved_cons {c : Canvas (Sheet α) α} {n : Snapshot} {rest : List Snapshot}
    (h : c.saved.length = c.surface.saved.length) (hc : c.saved = n :: rest) :
    ∃ m ms, c.surface.saved = m :: ms := by
  rw [hc, List.length_cons] at h
  exact List.exists_cons_of_length_eq_add_one h.symm

variable [Scalar α] [HasAxes α]

theorem run_perform_restore {s : Sheet α} {m : Affine α} {ms : List (Affine α)}
    (hs : s.saved = m :: ms) :
    (Surface.perform .restore : Act (Sheet α) _).run s =
      (.ok [], { s with transform := m, saved := ms }) := by
  have hrestore : s.restore = { s with transform := m, saved := ms } := by
    rw [Sheet.restore, hs]
  rw [← hrestore]
  rfl

theorem run_restore {c : Canvas (Sheet α) α} {n : Snapshot} {rest : List Snapshot} {m : Affine α}
    {ms : List (Affine α)} (hc : c.saved = n :: rest) (hs : c.surface.saved = m :: ms) :
    restore.run c = (.ok [], { c.apply n with
      surface := { c.surface with transform := m, saved := ms }, saved := rest }) :=
  run_restore_of_cons hc (run_perform_restore hs)

theorem run_revert {c : Canvas (Sheet α) α} {n : Snapshot} {rest : List Snapshot} {m : Affine α}
    {ms : List (Affine α)} (hc : c.saved = n :: rest) (hs : c.surface.saved = m :: ms) :
    revert.run c = (.ok [], { c.apply n with
      surface := { c.surface with transform := m, saved := m :: ms } }) :=
  run_revert_of_cons hc (run_perform_restore hs) rfl

theorem saves_step (op : Op α) {c : Canvas (Sheet α) α}
    (h : c.saved.length = c.surface.saved.length) :
    (step op c).2.saves =
      (op.stack c.snapshot c.saved, op.stack c.surface.transform c.surface.saved) := by
  cases hop : op.isSaving with
  | false =>
    rw [op.stack_of_not_saving hop, op.stack_of_not_saving hop]
    exact held_step (fun _ hs hr => Sheet.saved_perform hs hr) hop c
  | true =>
    cases op with
    | save | reset => rfl
    | restore =>
      cases hc : c.saved with
      | nil =>
        have hs : c.surface.saved = [] := List.eq_nil_of_length_eq_zero (by rw [← h, hc]; rfl)
        rw [step, act, run_restore_of_nil hc, saves, hc, hs]
        rfl
      | cons n rest =>
        obtain ⟨m, ms, hs⟩ := exists_saved_cons h hc
        rw [step, act, run_restore hc hs, hs]
        rfl
    | revert =>
      cases hc : c.saved with
      | nil =>
        rw [step, act, run_revert_of_nil hc, saves, hc]
        rfl
      | cons n rest =>
        obtain ⟨m, ms, hs⟩ := exists_saved_cons h hc
        rw [step, act, run_revert hc hs, saves, ← hc, hs]
        rfl
    | _ => cases hop

end Stacking

section Histories

variable {α : Type}

/-- The saves of a run, given the latest operation first, that are still open: for each the
operations before it. -/
def openSavesBackwards : List (Op α) → List (List (Op α))
  | [] => []
  | op :: earlier => op.stack earlier.reverse (openSavesBackwards earlier)

/-- The saves of a run that are still open, the latest first, each as the operations before it. -/
def openSaves (ops : List (Op α)) : List (List (Op α)) := openSavesBackwards ops.reverse

theorem openSaves_concat (ops : List (Op α)) (op : Op α) :
    openSaves (ops ++ [op]) = op.stack ops (openSaves ops) := by
  simp [openSaves, openSavesBackwards]

variable [Scalar α] [HasAxes α]

/-- After every run on a blank sheet, the sheet has saved the transforms of the saves that are
open, and the canvas a snapshot for each. -/
theorem saves_run (width height fileName : String) (autoOpen : Bool) (unit : AngleUnit)
    (ops : List (Op α)) :
    let start : Canvas (Sheet α) α := fresh (Sheet.blank width height fileName) autoOpen unit
    (run ops start).2.saved.length = (run ops start).2.surface.saved.length ∧
      (run ops start).2.surface.saved =
        (openSaves ops).map fun before => (run before start).2.surface.transform := by
  intro start
  induction ops using List.reverseRecOn with
  | nil => exact ⟨rfl, rfl⟩
  | append_singleton ops op ih =>
    obtain ⟨hlen, hsaved⟩ := ih
    have hstep := saves_step op hlen
    have hrun : (run (ops ++ [op]) start).2 = (step op (run ops start).2).2 :=
      run_append ops [op] start
    rw [saves, Prod.mk.injEq] at hstep
    rw [hrun, hstep.1, hstep.2, openSaves_concat, Op.map_stack, ← hsaved]
    exact ⟨op.length_stack _ _ hlen, rfl⟩

end Histories

end Canvas

end Linework
