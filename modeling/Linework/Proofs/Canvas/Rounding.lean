import Linework.Proofs.Canvas.Likeness
import Linework.Proofs.Canvas.Recorded
import Linework.Proofs.Plane.Corner
import Linework.Proofs.Plane.Straight

/-!
# Rounding a corner on a recording

With a current point, rounding a corner makes the calls of what is found for the corner: one line
if there is nothing to round, otherwise a line and an arc. Computed exactly, the arc rounds the
corner whenever its sides are not along one line. On doubles a corner whose sides are along one
line is drawn as a line where the sides have whole lengths; otherwise that depends on how their
cosine is rounded.
-/

set_option autoImplicit false

namespace Linework

open Scalar Binary64

namespace Canvas

section Calls

variable {σ α : Type} [Scalar α]

def cornerCalls (p1 : Point α) (r : α) : Option (Fillet α) → List (Call α)
  | none => [.lineTo p1]
  | some f => [.lineTo f.start, f.call (.number r)]

def cornerEnd (p1 : Point α) : Option (Fillet α) → Point α
  | none => p1
  | some f => f.finish

variable [Surface σ α] {c : Canvas σ α} {p0 p1 p2 : Point α} {r : α}

theorem run_roundedCorner (hc : c.pen.current = some p0) (hr : ¬ blt r (whole 0) = true) :
    (roundedCorner (Argument.ofPoint p1) (Argument.ofPoint p2) (.number r)).run c =
      match Fillet.of? p0 p1 p2 r with
      | .error e => (.error e, c)
      | .ok f? =>
        (drawThen (cornerCalls p1 r f?) fun p => p.moveTo (cornerEnd p1 f?)).run c := by
  have ho : c.pen.isOpen := Pen.isOpen_iff.mpr ⟨p0, hc⟩
  have hradius : (Act.ofExcept (Argument.number r).real : Act (Canvas σ α) α).run c =
      (.ok r, c) := rfl
  have hpoint : ∀ p : Point α, (Act.ofExcept (Argument.point (Argument.ofPoint p)) :
      Act (Canvas σ α) (Point α)).run c = (.ok p, c) := fun _ => rfl
  rw [roundedCorner, Act.run_bind_ok hradius, if_neg hr, Act.run_bind_ok (hpoint p1),
    Act.run_bind_ok (hpoint p2), Act.run_bind_ok (run_ensureOpenAt_of_open ho),
    Act.run_bind_ok (Act.run_get c), hc, Option.getD_some]
  dsimp only
  rw [Act.run_bind, Act.run_ofExcept]
  rcases Fillet.of? p0 p1 p2 r with e | f | f
  · rfl
  · simp only [cornerCalls, drawThen_singleton]
    rfl
  · simp only [cornerCalls, drawThen_cons]
    rfl

end Calls

section Recordings

variable {α : Type} [Scalar α] {c : Canvas (Recording α) α} {p0 p1 p2 : Point α} {r : α}

def rounded (c : Canvas (Recording α) α) (p1 : Point α) (r : α) (f? : Option (Fillet α)) :
    Canvas (Recording α) α :=
  { c with
    surface := c.surface.recordAll (cornerCalls p1 r f?)
    pen := c.pen.moveTo (cornerEnd p1 f?) }

theorem step_roundedCorner (hc : c.pen.current = some p0) (hr : ¬ blt r (whole 0) = true) :
    step (.roundedCorner (Argument.ofPoint p1) (Argument.ofPoint p2) (.number r)) c =
      match Fillet.of? p0 p1 p2 r with
      | .error e => (.error e, c)
      | .ok f? => (.ok [], c.rounded p1 r f?) := by
  change (quietly (roundedCorner _ _ _)).run c = _
  rw [run_quietly, run_roundedCorner hc hr]
  rcases Fillet.of? p0 p1 p2 r with e | f?
  · rfl
  · dsimp only
    rw [run_drawThen_recording]
    rfl

theorem step_roundedCorner_eq_line_iff (hc : c.pen.current = some p0)
    (hr : ¬ blt r (whole 0) = true) :
    step (.roundedCorner (Argument.ofPoint p1) (Argument.ofPoint p2) (.number r)) c =
      (.ok [], c.lined [p1]) ↔ Fillet.of? p0 p1 p2 r = .ok none := by
  rw [step_roundedCorner hc hr]
  rcases Fillet.of? p0 p1 p2 r with e | _ | f
  · simp
  · exact iff_of_true rfl rfl
  · refine iff_of_false (fun h => ?_) (by simp)
    have hcalls := congrArg (·.2.surface.calls.length) h
    simp [rounded, lined, cornerCalls] at hcalls

end Recordings

/-- Rounding a corner that is none of the degenerate ones records a line to where the circle of
the given radius touches the first side and the arc of this circle up to where it touches the
second side, and leaves the pen there. -/
theorem roundedCorner_rounds (c : Canvas (Recording ℝ) ℝ) (p0 p1 p2 : Point ℝ) (r : ℝ)
    (hc : c.pen.current = some p0) (hr : 0 < r)
    (h : ¬ Collinear ℝ {p0.toComplex, p1.toComplex, p2.toComplex})
    (hlow : Fillet.collinearTolerance ≤
      EuclideanGeometry.angle p0.toComplex p1.toComplex p2.toComplex)
    (hhigh : Fillet.collinearTolerance ≤
      Real.pi - EuclideanGeometry.angle p0.toComplex p1.toComplex p2.toComplex) :
    ∃ f : Fillet ℝ, f.Rounds p0 p1 p2 r ∧
      step (.roundedCorner (Argument.ofPoint p1) (Argument.ofPoint p2) (.number r)) c =
        (.ok [], { c with
          surface := c.surface.recordAll [.lineTo f.start, .oval f.arc]
          pen := c.pen.moveTo f.finish }) := by
  obtain ⟨f, hf, hrounds⟩ := Fillet.exists_rounds hr h hlow hhigh
  have hcall : f.call (.number r) = .oval f.arc := by
    rw [Fillet.call, Call.oval, hrounds.circle]
    rfl
  refine ⟨f, hrounds, ?_⟩
  rw [step_roundedCorner hc (by simpa using hr.le), hf]
  simp only [rounded, cornerCalls, cornerEnd, hcall]

theorem roundedCorner_rounds_right_angle :
    let c := (fresh .empty true .radians : Canvas (Recording ℝ) ℝ).withPen (Pen.openAt · ⟨0, 0⟩)
    ∃ f : Fillet ℝ, f.Rounds ⟨0, 0⟩ ⟨10, 0⟩ ⟨10, 10⟩ 3 ∧
      step (.roundedCorner ⟨.number 10, .number 0⟩ ⟨.number 10, .number 10⟩ (.number 3)) c =
        (.ok [], { c with
          surface := c.surface.recordAll [.lineTo f.start, .oval f.arc]
          pen := c.pen.moveTo f.finish }) := by
  intro c
  have hpi := Real.two_le_pi
  have htolerance : (Fillet.collinearTolerance : ℝ) ≤ Real.pi / 2 := by
    rw [Fillet.collinearTolerance, real_place]
    linarith
  have hangle : EuclideanGeometry.angle (Point.toComplex ⟨0, 0⟩) (Point.toComplex ⟨10, 0⟩)
      (Point.toComplex ⟨10, 10⟩) = Real.pi / 2 := by
    change InnerProductGeometry.angle (Point.toComplex ⟨0, 0⟩ - Point.toComplex ⟨10, 0⟩)
      (Point.toComplex ⟨10, 10⟩ - Point.toComplex ⟨10, 0⟩) = _
    rw [← InnerProductGeometry.inner_eq_zero_iff_angle_eq_pi_div_two, ← Point.toComplex_sub,
      ← Point.toComplex_sub, Point.inner_toComplex]
    norm_num
  have hcorner : ¬ Collinear ℝ {Point.toComplex ⟨0, 0⟩, Point.toComplex ⟨10, 0⟩,
      Point.toComplex ⟨10, 10⟩} := by
    rw [EuclideanGeometry.collinear_iff_eq_or_eq_or_angle_eq_zero_or_angle_eq_pi, hangle,
      Point.toComplex_injective.eq_iff, Point.toComplex_injective.eq_iff]
    have hne : Real.pi / 2 ≠ Real.pi := (half_lt_self Real.pi_pos).ne
    norm_num [hne, Real.pi_ne_zero]
  exact roundedCorner_rounds c ⟨0, 0⟩ ⟨10, 0⟩ ⟨10, 10⟩ 3 rfl (by norm_num) hcorner
    (by rwa [hangle]) (by rw [hangle]; linarith)

/-- Rounding a corner whose sides are along one line records one line, to the corner, just if
there is no radius or no side, or if the cosine between the sides is not rounded to less than one
in size. This is so whenever the lengths of the sides are whole numbers. -/
theorem roundedCorner_eq_line_iff (c : Canvas (Recording Float) Float) (p0 p1 p2 : Point Float)
    (a0 a1 a2 : Point ℤ) (r : Float) (hc : c.pen.current = some p0)
    (h0 : p0.IsAt a0) (h1 : p1.IsAt a1) (h2 : p2.IsAt a2) (h : AlongLine a0 a1 a2)
    (hr : ¬ blt r (whole 0) = true) :
    (step (.roundedCorner (Argument.ofPoint p1) (Argument.ofPoint p2) (.number r)) c =
        (.ok [], c.lined [p1]) ↔
      (isZero r || p0.beq p1 || p1.beq p2) = true ∨
        ∃ cosine, (p0 - p1).cosineTo (p2 - p1) = .ok cosine ∧
          ble (whole 1) (magnitude cosine) = true) ∧
    (IsSquare (squaredLength ⟨a0.x - a1.x, a0.y - a1.y⟩) →
      IsSquare (squaredLength ⟨a2.x - a1.x, a2.y - a1.y⟩) →
      step (.roundedCorner (Argument.ofPoint p1) (Argument.ofPoint p2) (.number r)) c =
        (.ok [], c.lined [p1])) := by
  rw [step_roundedCorner_eq_line_iff hc hr]
  exact ⟨Fillet.of?_eq_none_iff_of_alongLine h0 h1 h2 h,
    Fillet.of?_eq_none_of_isSquare h0 h1 h2 h⟩

theorem roundedCorner_eq_line_straight_on :
    let c := (fresh .empty true .radians : Canvas (Recording Float) Float).withPen
      (Pen.openAt · ⟨whole 0, whole 0⟩)
    step (.roundedCorner ⟨.number (whole 3), .number (whole 4)⟩
        ⟨.number (whole 6), .number (whole 8)⟩ (.number (whole 5))) c =
      (.ok [], c.lined [⟨whole 3, whole 4⟩]) := by
  intro c
  have hline : AlongLine ⟨0, 0⟩ ⟨3, 4⟩ ⟨6, 8⟩ := by decide
  have h0 : Point.IsAt ⟨whole 0, whole 0⟩ ⟨0, 0⟩ :=
    ⟨by decide +kernel, by decide +kernel, by decide, by decide⟩
  have h1 : Point.IsAt ⟨whole 3, whole 4⟩ ⟨3, 4⟩ :=
    ⟨by decide +kernel, by decide +kernel, by decide, by decide⟩
  have h2 : Point.IsAt ⟨whole 6, whole 8⟩ ⟨6, 8⟩ :=
    ⟨by decide +kernel, by decide +kernel, by decide, by decide⟩
  exact (roundedCorner_eq_line_iff c _ _ _ _ _ _ _ rfl h0 h1 h2 hline (by decide +kernel)).2
    ⟨5, rfl⟩ ⟨5, rfl⟩

theorem not_roundedCorner_line_on_diagonal :
    (Point.IsAt ⟨whole 0, whole 0⟩ ⟨0, 0⟩ ∧ Point.IsAt ⟨whole 1, whole 1⟩ ⟨1, 1⟩ ∧
      Point.IsAt ⟨whole 2, whole 2⟩ ⟨2, 2⟩ ∧ AlongLine ⟨0, 0⟩ ⟨1, 1⟩ ⟨2, 2⟩) ∧
    (step (.roundedCorner ⟨.number (whole 1), .number (whole 1)⟩
        ⟨.number (whole 2), .number (whole 2)⟩ (.number (whole 5)))
      ((fresh .empty true .radians : Canvas (Recording Float) Float).withPen
        (Pen.openAt · ⟨whole 0, whole 0⟩))).1 = .error .zeroVector := by
  -- On the diagonal the cosine is rounded down, and the corner has no bisector.
  refine ⟨⟨⟨?_, ?_, ?_, ?_⟩, ⟨?_, ?_, ?_, ?_⟩, ⟨?_, ?_, ?_, ?_⟩, ?_⟩, ?_⟩ <;> decide +kernel

end Canvas

end Linework
