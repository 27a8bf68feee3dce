import Linework.Proofs.Canvas.Step
import Linework.Surface.Recording

/-!
# The pen stays coherent

A pen is coherent if it is down exactly while a subpath is open and holds at most one control
point, and that only while it is down. Every stroke and every turn keeps this, also one that the
surface cuts short, so that it holds after every operation of every run.
-/

set_option autoImplicit false

namespace Linework

namespace Pen

variable {α : Type}

structure Coherent (p : Pen α) : Prop where
  current_iff : p.current = none ↔ p.start = none
  one_control : p.cubic = none ∨ p.quadratic = none
  control_open : p.cubic ≠ none ∨ p.quadratic ≠ none → p.current ≠ none

namespace Coherent

variable {p : Pen α}

theorem fresh (unit : AngleUnit) : (Pen.fresh unit : Pen α).Coherent :=
  ⟨by simp [Pen.fresh], .inl rfl, by simp [Pen.fresh]⟩

theorem withUnit (h : p.Coherent) (u : AngleUnit) : ({ p with unit := u } : Pen α).Coherent :=
  ⟨h.current_iff, h.one_control, h.control_open⟩

theorem openAt (p : Pen α) (z : Point α) : (p.openAt z).Coherent :=
  ⟨by simp, .inl rfl, by simp⟩

theorem start_of_open (h : p.Coherent) (ho : p.isOpen) : p.start ≠ none := by
  obtain ⟨z, hz⟩ := isOpen_iff.mp ho
  intro hs
  rw [h.current_iff.mpr hs] at hz
  cases hz

theorem moveTo (h : p.Coherent) (ho : p.isOpen) (z : Point α) : (p.moveTo z).Coherent :=
  ⟨by simpa using h.start_of_open ho, .inl rfl, by simp⟩

theorem curveTo (h : p.Coherent) (ho : p.isOpen) (curve : Curve) (k z : Point α) :
    (p.curveTo curve k z).Coherent := by
  refine ⟨by simpa using h.start_of_open ho, ?_, by simp⟩
  cases curve with
  | cubic => exact .inr rfl
  | quadratic => exact .inl rfl

theorem close (p : Pen α) : p.close.Coherent := by
  cases hs : p.start with
  | none =>
    rw [close_of_none hs]
    exact fresh p.unit
  | some z =>
    rw [close_of_start hs]
    exact ⟨by simp [hs], .inl rfl, by simp⟩

theorem draws [Scalar α] {calls : List (Call α)} {q : Pen α} (h : p.Coherent)
    (hd : p.Draws calls q) : q.Coherent := by
  cases hd with
  | start z => exact openAt p z
  | lines ho zs z => exact h.moveTo ho z
  | cubics ho cs c => exact h.curveTo ho .cubic c.second c.finish
  | quadratics ho qs q => exact h.curveTo ho .quadratic q.control q.finish
  | arc hz request ha => exact h.moveTo (isOpen_iff.mpr ⟨_, hz⟩) request.finish
  | omitted hz finish he => exact h.moveTo (isOpen_iff.mpr ⟨_, hz⟩) finish
  | oval ho r hr hx hy hq ha => exact h.moveTo ho _
  | corner hz p1 p2 hr hx hf => exact h.moveTo (isOpen_iff.mpr ⟨_, hz⟩) _
  | close => exact close p

end Coherent

end Pen

namespace Canvas

variable {σ α : Type}

/-- A canvas whose pen is coherent, and on which every unit of angles, in force or saved, is one of
the two that there are. -/
structure Coherent (c : Canvas σ α) : Prop where
  pen : c.pen.Coherent
  unit_name : c.pen.unit.name = "radians" ∨ c.pen.unit.name = "degrees"
  saved_name : ∀ s ∈ c.saved, s.unit.name = "radians" ∨ s.unit.name = "degrees"

theorem unit_name_cases (u : AngleUnit) : u.name = "radians" ∨ u.name = "degrees" := by
  cases u with
  | radians => exact .inl rfl
  | degrees => exact .inr rfl

theorem coherent_of_pen {c : Canvas σ α} (h : c.pen.Coherent) : c.Coherent :=
  ⟨h, unit_name_cases _, fun s _ => unit_name_cases s.unit⟩

variable [Surface σ α]

theorem coherent_drawing [Scalar α] {stops : Prop} {c t : Canvas σ α} (hd : Drawing stops c t)
    (h : c.pen.Coherent) : t.pen.Coherent := by
  cases hd with
  | drawn hp hs => exact h.draws hp
  | refused hp hs => exact h
  | ahead ho hs => exact .openAt _ _
  | stopped _ ho hs => exact h

theorem coherent_turn {c t : Canvas σ α} (ht : Turn c t) (h : c.pen.Coherent) :
    t.pen.Coherent := by
  cases ht with
  | idle => exact h
  | unit u => exact h.withUnit u
  | style s => exact h
  | lifted hl hs => exact .fresh _
  | saved hs => exact h
  | restored hn hs => exact h.withUnit _
  | reverted hn hs => exact h.withUnit _
  | painted hk hs => exact h
  | refused hk hs => exact h
  | reset hs => exact .fresh _
  | resetRefused hs => exact h

/-- After every run on a canvas that could be created, whatever its surface refuses, the canvas is
coherent. The beginnings of a run are runs, so this holds after each of its operations. -/
theorem coherent_run [Scalar α] (surface : σ) (autoOpen : Bool) (unit : Value) {c : Canvas σ α}
    (hc : create surface autoOpen unit = .ok c) (ops : List (Op α)) : (run ops c).2.Coherent := by
  have hp : c.pen.Coherent := by
    rw [create] at hc
    cases hu : AngleUnit.ofValue unit with
    | error e =>
      rw [hu] at hc
      cases hc
    | ok u =>
      rw [hu] at hc
      cases hc
      exact .fresh u
  have hk := run_keeps (P := fun t : Canvas σ α => t.pen.Coherent)
    (step_keeps coherent_drawing coherent_turn) ops hp
  exact coherent_of_pen hk

theorem coherent_run_after_refusals :
    create (NoSurface.none : NoSurface Float) true (.text "degrees") =
        .ok (fresh .none true .degrees : Canvas (NoSurface Float) Float) ∧
      (run [.command ⟨.line, false⟩ (Argument.ofNumbers [3, 4]), .save, .setUnit (.text "turns")]
        (fresh .none true .degrees : Canvas (NoSurface Float) Float)).2.Coherent :=
  ⟨rfl, coherent_run _ true (.text "degrees") rfl _⟩

end Canvas

end Linework
