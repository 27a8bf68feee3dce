import Linework.Proofs.Canvas.Asked
import Linework.Proofs.Canvas.Passages
import Linework.Proofs.Sheet.Replay

/-!
# Beginning anew

A reset leaves nothing behind of what was done before it. The canvas keeps only what it was created
with, and clearing its surface gives back the surface that it was created on, whichever calls that
has answered or refused since. So the operations that follow a reset find, answer and leave what
they would on a new canvas.
-/

set_option autoImplicit false

namespace Linework

/-- A condition under which clearing a surface leads back to its first state. It holds there, and no
call breaks it. -/
structure Surface.Renews {σ α : Type} [Surface σ α] (first : σ) (P : σ → Prop) : Prop where
  holds : P first
  perform : ∀ (k : Call α) (s : σ), P s → P ((Surface.perform k : Act σ (List Warning)).run s).2
  clear : ∀ s, P s → (Surface.clear : Act σ Unit).run s = (.ok (), first)

theorem Recording.renews {α : Type} :
    Surface.Renews (α := α) (Recording.empty : Recording α) fun _ => True :=
  ⟨trivial, fun _ _ _ => trivial, fun _ _ => rfl⟩

theorem Sheet.renews {α : Type} [Scalar α] [HasAxes α] (g : Frame) :
    Surface.Renews (α := α) (Sheet.blank g.width g.height g.fileName : Sheet α)
      fun s => s.framed g = s := by
  refine ⟨rfl, fun k s hs => ?_, fun s hs => ?_⟩
  · have hcall := (carries_framed (g := g)).perform_eq k s
    rw [hs] at hcall
    exact (congrArg Prod.snd hcall).symm
  · have hclear : (Surface.clear : Act (Sheet α) Unit).run s = (.ok (), s.cleared) := rfl
    rw [hclear, cleared_of_framed hs]

namespace Canvas

variable {σ α : Type} [Scalar α] [Surface σ α]

def setup (c : Canvas σ α) : Bool × AngleUnit := (c.autoOpen, c.defaultUnit)

theorem setup_step (op : Op α) (c : Canvas σ α) : (step op c).2.setup = c.setup := by
  refine step_keeps (P := fun t => t.setup = c.setup) (fun hd h => ?_) (fun ht h => ?_) op c rfl
  · cases hd <;> exact h
  · cases ht <;> exact h

section Renewal

variable {first : σ} {P : σ → Prop} (hr : Surface.Renews (α := α) first P)

include hr

theorem renews_step (op : Op α) {c : Canvas σ α} (h : P c.surface) :
    P (step op c).2.surface := by
  by_cases hop : op = .reset
  · subst hop
    rw [surface_reset, hr.clear _ h]
    exact hr.holds
  · exact (asks_act hop).keeps (fun k s _ hs => hr.perform k s hs) h

theorem reset_run (ops : List (Op α)) (autoOpen : Bool) (unit : AngleUnit) :
    step .reset (run ops (fresh first autoOpen unit)).2 = (.ok [], fresh first autoOpen unit) := by
  obtain ⟨hsetup, hsurface⟩ :=
    run_keeps (P := fun t : Canvas σ α => t.setup = (autoOpen, unit) ∧ P t.surface)
      (fun op t ht => ⟨(setup_step op t).trans ht.1, renews_step hr op ht.2⟩) ops
      (c := fresh first autoOpen unit) ⟨rfl, hr.holds⟩
  obtain ⟨hauto, hunit⟩ := Prod.mk.inj hsetup
  rw [step_reset_ok (hr.clear _ hsurface), hauto, hunit]

end Renewal

theorem passages_append (ops more : List (Op α)) (c : Canvas σ α) :
    passages (ops ++ more) c = passages ops c ++ passages more (run ops c).2 := by
  induction ops generalizing c with
  | nil => rfl
  | cons op rest ih => rw [List.cons_append, passages, ih, passages, List.cons_append, run_cons]

/-- Some operations, a reset and more operations: the reset answers without a warning and leaves
the canvas that there was at first, and from there each operation goes through what it goes through
on that canvas. -/
def BeginsAnew (c : Canvas σ α) (ops more : List (Op α)) : Prop :=
  passages (ops ++ .reset :: more) c =
      passages ops c ++ ⟨.reset, (run ops c).2, .ok [], c⟩ :: passages more c ∧
    (run (ops ++ .reset :: more) c).2 = (run more c).2

theorem beginsAnew_of_reset {c : Canvas σ α} {ops : List (Op α)}
    (h : step .reset (run ops c).2 = (.ok [], c)) (more : List (Op α)) :
    c.BeginsAnew ops more := by
  constructor
  · rw [passages_append, passages, h]
  · rw [run_append, run_cons, h]

theorem beginsAnew_create {first : σ} {P : σ → Prop} (hr : Surface.Renews (α := α) first P)
    {autoOpen : Bool} {unit : Value} {c : Canvas σ α}
    (hc : create first autoOpen unit = .ok c) (ops more : List (Op α)) : c.BeginsAnew ops more := by
  rw [create] at hc
  cases hu : AngleUnit.ofValue unit with
  | error e =>
    rw [hu] at hc
    cases hc
  | ok u =>
    rw [hu] at hc
    rw [← Except.ok.inj hc]
    exact beginsAnew_of_reset (reset_run hr ops autoOpen u) more

/-- On a recording and on a sheet alike, whatever has been done and refused, saved and left unsaved
before a reset: the operations after it do on this canvas what they would do on a new one that was
created with the same arguments on a new surface. -/
theorem anew_run (autoOpen : Bool) (unit : Value) (ops more : List (Op α)) :
    (∀ c : Canvas (Recording α) α, create .empty autoOpen unit = .ok c → c.BeginsAnew ops more) ∧
    ∀ [HasAxes α] (width height : Value) (fileName : String) (s : Sheet α) (c : Canvas (Sheet α) α),
      Sheet.create width height fileName = .ok s → create s autoOpen unit = .ok c →
      c.BeginsAnew ops more := by
  refine ⟨fun c hc => beginsAnew_create Recording.renews hc ops more, ?_⟩
  intro _ width height fileName s c hs hc
  obtain ⟨w, -, hs⟩ := exists_of_bind_ok hs
  obtain ⟨h, -, hs⟩ := exists_of_bind_ok hs
  rw [← Except.ok.inj hs] at hc
  exact beginsAnew_create (Sheet.renews ⟨w, h, fileName⟩) hc ops more

theorem anew_run_scaled :
    let recording : Canvas (Recording Float) Float := fresh .empty false .degrees
    let sheet : Canvas (Sheet Float) Float := fresh (.blank "300" "40%" "plan.svg") false .degrees
    let ops : List (Op Float) :=
      [.save, .save, .scale ⟨.number 2, .number 3⟩, .setUnit (.text "radians"),
        .command ⟨.line, false⟩ (Argument.ofNumbers [5, 5]), .restore]
    let more : List (Op Float) := [.restore, .rotate (.number 90), .fill []]
    create .empty false (.text "degrees") = .ok recording ∧ recording.BeginsAnew ops more ∧
      Sheet.create (.int 300) (.text "40%") "plan.svg" = .ok sheet.surface ∧
      create sheet.surface false (.text "degrees") = .ok sheet ∧ sheet.BeginsAnew ops more :=
  ⟨rfl, (anew_run false (.text "degrees") _ _).1 _ rfl, rfl, rfl,
    (anew_run false (.text "degrees") _ _).2 (.int 300) (.text "40%") "plan.svg" _ _ rfl rfl⟩

end Canvas

end Linework
