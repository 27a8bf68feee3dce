import Linework.Proofs.Sheet.Agreement
import Linework.Proofs.Sheet.Saves

/-!
# Agreement after going back

Restoring and reverting change the transform of the sheet but do not lift the pen, as every other
change of coordinates does. So the pen goes on to hold points that were drawn under another
transform, and it agrees with the sheet only if the transform that is brought back takes them to
the same places.
-/

set_option autoImplicit false

namespace Linework.Canvas

variable {α : Type} [Scalar α] [HasAxes α]

theorem step_goingBack {back : Op α} (hback : back = .restore ∨ back = .revert)
    {c : Canvas (Sheet α) α} (h : c.saved.length = c.surface.saved.length) :
    (step back c).1.isOk ∧ SamePoints c (step back c).2 ∧
      (step back c).2.surface.transform = c.surface.saved.head?.getD c.surface.transform := by
  cases hc : c.saved with
  | nil =>
    have hs : c.surface.saved = [] := List.eq_nil_of_length_eq_zero (by rw [← h, hc]; rfl)
    rcases hback with rfl | rfl
    · rw [step, act, run_restore_of_nil hc, hs]
      exact ⟨rfl, ⟨rfl, rfl, rfl, rfl⟩, rfl⟩
    · rw [step, act, run_revert_of_nil hc, hs]
      exact ⟨rfl, ⟨rfl, rfl, rfl, rfl⟩, rfl⟩
  | cons n rest =>
    obtain ⟨m, ms, hs⟩ := exists_saved_cons h hc
    rcases hback with rfl | rfl
    · rw [step, act, run_restore hc hs, hs]
      exact ⟨rfl, ⟨rfl, rfl, rfl, rfl⟩, rfl⟩
    · rw [step, act, run_revert hc hs, hs]
      exact ⟨rfl, ⟨rfl, rfl, rfl, rfl⟩, rfl⟩

theorem agrees_back_iff {back : Op α} (hback : back = .restore ∨ back = .revert)
    {c : Canvas (Sheet α) α} (h : c.saved.length = c.surface.saved.length) (hc : c.Agrees) :
    (step back c).2.Agrees ↔ ∀ m ∈ c.surface.saved.head?, ∀ z,
      c.pen.current = some z ∨ c.pen.start = some z → m.apply z = c.surface.map z := by
  obtain ⟨-, hpoints, htransform⟩ := step_goingBack hback h
  rw [hc.iff_of_samePoints hpoints]
  simp only [Sheet.map, htransform]
  cases c.surface.saved.head? with
  | none => simp
  | some m => simp

/-- After any run on a blank sheet, going back never fails. It keeps the agreement of the pen and
the sheet exactly if the latest save that is open was made under a transform that takes the
current point and the start of the subpath to where the present one takes them. -/
theorem agrees_goingBack_iff (width height fileName : String) (autoOpen : Bool) (unit : AngleUnit)
    (ops : List (Op α)) {back : Op α} (hback : back = .restore ∨ back = .revert) :
    let start : Canvas (Sheet α) α := fresh (Sheet.blank width height fileName) autoOpen unit
    let c := (run ops start).2
    c.Agrees →
      (step back c).1.isOk ∧
        ((step back c).2.Agrees ↔
          ∀ before ∈ (openSaves ops).head?, ∀ z, c.pen.current = some z ∨ c.pen.start = some z →
            (run before start).2.surface.map z = c.surface.map z) := by
  intro start c hc
  have hlen : c.saved.length = c.surface.saved.length :=
    (saves_run width height fileName autoOpen unit ops).1
  have hsaved : c.surface.saved =
      (openSaves ops).map fun before => (run before start).2.surface.transform :=
    (saves_run width height fileName autoOpen unit ops).2
  refine ⟨(step_goingBack hback hlen).1, ?_⟩
  rw [agrees_back_iff hback hlen hc, hsaved, List.head?_map]
  cases (openSaves ops).head? with
  | none => simp
  | some before => simp [Sheet.map]

theorem agrees_goingBack_within_transform :
    let start : Canvas (Sheet Float) Float :=
      fresh (Sheet.blank "9" "9" "drawing.svg") true .radians
    let ops : List (Op Float) :=
      [.translate ⟨.number 10, .number 20⟩, .save,
        .command ⟨.move, false⟩ (Argument.ofNumbers [1, 2]),
        .command ⟨.line, true⟩ (Argument.ofNumbers [3, 4])]
    let c := (run ops start).2
    c.Agrees ∧ (step .restore c).1.isOk ∧ (step .restore c).2.Agrees := by
  intro start ops c
  have hplain : ∀ op ∈ ops, op.IsPlain := by simp [ops, Op.IsPlain]
  have hok : ∀ o ∈ (run ops start).1, o.isOk := by decide +kernel
  have hc : c.Agrees :=
    agrees_of_prefix (.of_lifted rfl rfl) hplain hok (List.prefix_refl ops)
  obtain ⟨hback, hiff⟩ := agrees_goingBack_iff "9" "9" "drawing.svg" true .radians ops (.inl rfl) hc
  have hopen : (openSaves ops).head? = some [.translate ⟨.number 10, .number 20⟩] := rfl
  have htransform :
      (run [.translate ⟨.number 10, .number 20⟩] start).2.surface.transform =
        c.surface.transform := by decide +kernel
  refine ⟨hc, hback, hiff.mpr ?_⟩
  rw [hopen]
  intro before hbefore z _
  rw [← Option.some.inj hbefore, Sheet.map, htransform, Sheet.map]

theorem not_agrees_after_restored_shift :
    let start : Canvas (Sheet Float) Float :=
      fresh (Sheet.blank "9" "9" "drawing.svg") true .radians
    let ops : List (Op Float) :=
      [.save, .translate ⟨.number 10, .number 0⟩,
        .command ⟨.move, false⟩ (Argument.ofNumbers [0, 0])]
    let c := (run ops start).2
    (∀ o ∈ (run ops start).1, o.isOk) ∧ c.Agrees ∧ (step .restore c).1.isOk ∧
      ¬ (step .restore c).2.Agrees := by
  intro start ops c
  have hplain : ∀ op ∈ ops, op.IsPlain := by simp [ops, Op.IsPlain]
  have hok : ∀ o ∈ (run ops start).1, o.isOk := by decide +kernel
  have hc : c.Agrees :=
    agrees_of_prefix (.of_lifted rfl rfl) hplain hok (List.prefix_refl ops)
  have hback : (step .restore c).1.isOk := by decide +kernel
  refine ⟨hok, hc, hback, fun h => ?_⟩
  -- The start stays where it was drawn, but the pen goes on as if it had been without the shift.
  have hcurrent : (step .restore c).2.pen.current = some ⟨0, 0⟩ := by decide +kernel
  have himage := h.current ⟨0, 0⟩ hcurrent
  revert himage
  decide +kernel

end Linework.Canvas
