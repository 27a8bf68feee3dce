import Linework.Proofs.Canvas.Mask
import Linework.Proofs.Canvas.Recorded
import Linework.Proofs.Plane.Landing

/-!
# Where an ellipse leaves the pen

A canvas passes an ellipse on to its surface with the two angles and the direction that were asked
for, and computes by itself where the pen gets to. With exact coordinates this is where the arc
ends that the call describes: at the point at its end angle, or where it begins if it is a full
turn or more.
-/

set_option autoImplicit false

namespace Linework

open Scalar

section Requests

variable {α : Type} [Scalar α]

def Call.readOval (k : Call α) : Except Fault (Oval α) :=
  match k.primitive, k.arguments with
  | .ellipse, [cx, cy, rx, ry, rotation, startAngle, endAngle, anticlockwise] =>
    Oval.ofArguments ⟨cx, cy⟩ ⟨rx, ry⟩ rotation startAngle endAngle anticlockwise
  | _, _ => .error .wrongType

theorem OvalRequest.readOval_call (r : OvalRequest α) : r.call.readOval = r.toOval := rfl

theorem OvalRequest.radii_of_toOval {r : OvalRequest α} {o : Oval α} (h : r.toOval = .ok o) :
    Argument.point r.radii = .ok o.ellipse.radii := by
  rw [toOval, Oval.ofArguments] at h
  obtain ⟨center, -, h⟩ := exists_of_bind_ok h
  obtain ⟨radii, hradii, h⟩ := exists_of_bind_ok h
  obtain ⟨first, -, h⟩ := exists_of_bind_ok h
  obtain ⟨last, -, h⟩ := exists_of_bind_ok h
  obtain ⟨_, -, h⟩ := exists_of_bind_ok h
  obtain ⟨turn, -, h⟩ := exists_of_bind_ok h
  cases h
  exact hradii

end Requests

namespace Oval

/-- Where the arc of an oval begins. -/
noncomputable def outset (o : Oval ℝ) : Point ℝ := o.ellipse.point o.startAngle

noncomputable def terminus (o : Oval ℝ) : Point ℝ :=
  if fullTurn ≤ reach o.startAngle o.endAngle o.anticlockwise then o.outset
  else o.ellipse.point o.endAngle

theorem toArc_real (o : Oval ℝ) :
    o.toArc = .ok ⟨o.ellipse, o.startAngle, o.sweep, o.outset, o.terminus⟩ := by
  rw [toArc, Arc.ofSweep_none, sweep, o.ellipse.point_add_sweepBetween, terminus, real_fullTurn]
  rfl

end Oval

namespace Canvas

section Performed

variable {σ α : Type} [Surface σ α] {c t : Canvas σ α} {k : Call α} {calls : List (Call α)}
  {f : Pen α → Pen α} {z : Point α}

theorem run_drawThen_eq_ok_iff :
    (drawThen calls f).run c = (.ok (), t) ↔
      ∃ w, Surface.performAll calls c.surface = (w, none, t.surface) ∧
        t = { c with surface := t.surface, pen := f c.pen } := by
  rcases hs : Surface.performAll calls c.surface with ⟨w, e, s⟩
  cases e with
  | none =>
    rw [drawThen, Act.run_bind_ok (run_drawCalls_ok hs), run_movePen]
    constructor
    · intro h
      cases h
      exact ⟨w, rfl, rfl⟩
    · rintro ⟨_, hw, ht⟩
      cases hw
      rw [ht]
  | some e =>
    rw [drawThen, Act.run_bind_error (run_drawCalls_error hs)]
    simp

theorem run_moveTo_drawThen_eq_ok_iff :
    (moveTo z >>= fun _ => drawThen [k] f).run c = (.ok (), t) ↔
      ∃ w, Surface.performAll [.moveTo z, k] c.surface = (w, none, t.surface) ∧
        t = { c with surface := t.surface, pen := f (c.pen.openAt z) } := by
  rcases hs : (Surface.perform (.moveTo z) : Act σ (List Warning)).run c.surface with ⟨e | w, s⟩
  · rw [moveTo, Act.run_bind_error (Act.run_bind_error (run_draw_error hs)),
      performAll_cons_error hs]
    simp
  · have hmove : (moveTo z).run c =
        (.ok (), { c with surface := s, pen := c.pen.openAt z }) := by
      rw [moveTo, Act.run_bind_ok (run_draw_ok hs)]
      rfl
    rw [Act.run_bind_ok hmove, run_drawThen_eq_ok_iff, performAll_cons_ok hs]
    constructor
    · rintro ⟨w', hw, ht⟩
      exact ⟨w ++ w', by rw [hw], ht⟩
    · rintro ⟨_, hw, ht⟩
      exact ⟨_, Prod.ext rfl (Prod.mk.inj hw).2, ht⟩

end Performed

section Ellipses

variable {σ : Type} [Surface σ ℝ] {c t : Canvas σ ℝ} {r s : OvalRequest ℝ} {o : Oval ℝ}
  {k : Call ℝ}

/-- The calls for an oval: one that describes it, after a move to where it begins if no subpath is
open. -/
noncomputable def ovalCalls (p : Pen ℝ) (o : Oval ℝ) (k : Call ℝ) : List (Call ℝ) :=
  if p.isOpen then [k] else [.moveTo o.outset, k]

/-- What it means that a canvas draws an oval by a call: this describes the oval, and the pen is
left where its arc ends. -/
structure DrawsOval (c : Canvas σ ℝ) (r : OvalRequest ℝ) (k : Call ℝ) (o : Oval ℝ)
    (t : Canvas σ ℝ) : Prop where
  asks : (r.resolve c.pen.unit).map OvalRequest.call = .ok k
  describes : k.readOval = .ok o
  radii : 0 ≤ o.ellipse.radii.x ∧ 0 ≤ o.ellipse.radii.y
  performed : ∃ w, Surface.performAll (ovalCalls c.pen o k) c.surface = (w, none, t.surface)
  ends : ∃ arc, o.toArc = .ok arc ∧ arc.finish = o.terminus
  leaves : t = { c with
    surface := t.surface
    pen := (c.pen.ensureOpen (some o.outset)).moveTo o.terminus }

theorem run_drawOval_of_toOval (ho : s.toOval = .ok o) (hx : 0 ≤ o.ellipse.radii.x)
    (hy : 0 ≤ o.ellipse.radii.y) (isOpen : Bool) :
    (drawOval isOpen s).run c = ((if isOpen then pure () else moveTo o.outset) >>= fun _ =>
      drawThen [s.call] fun p => p.moveTo o.terminus).run c := by
  have hradii : ¬ (blt o.ellipse.radii.x (whole 0) || blt o.ellipse.radii.y (whole 0)) = true := by
    simpa using ⟨hx, hy⟩
  rw [drawOval, OvalRequest.radii_of_toOval ho, Act.ofExcept_ok, pure_bind, if_neg hradii, ho,
    Act.ofExcept_ok, pure_bind, o.toArc_real, Act.ofExcept_ok, pure_bind, drawThen_singleton]
  cases isOpen <;> rfl

theorem toOval_of_run_drawOval {isOpen : Bool} (h : (drawOval isOpen s).run c = (.ok (), t)) :
    ∃ o : Oval ℝ, s.toOval = .ok o ∧ 0 ≤ o.ellipse.radii.x ∧ 0 ≤ o.ellipse.radii.y := by
  rw [drawOval] at h
  obtain ⟨radii, hradii, h⟩ := Act.exists_of_run_bind_ofExcept h
  split at h
  · cases h
  next hsign =>
  obtain ⟨o, ho, -⟩ := Act.exists_of_run_bind_ofExcept h
  obtain rfl : radii = o.ellipse.radii :=
    Except.ok.inj (hradii.symm.trans (OvalRequest.radii_of_toOval ho))
  have hnonneg : 0 ≤ o.ellipse.radii.x ∧ 0 ≤ o.ellipse.radii.y := by simpa using hsign
  exact ⟨o, ho, hnonneg.1, hnonneg.2⟩

theorem run_joined_eq_ok_iff {f : Pen ℝ → Pen ℝ} :
    ((if c.pen.isOpen then pure () else moveTo o.outset) >>= fun _ => drawThen [k] f).run c =
        (.ok (), t) ↔
      ∃ w, Surface.performAll (ovalCalls c.pen o k) c.surface = (w, none, t.surface) ∧
        t = { c with surface := t.surface, pen := f (c.pen.ensureOpen (some o.outset)) } := by
  rw [ovalCalls, Pen.ensureOpen]
  split
  · rw [pure_bind, run_drawThen_eq_ok_iff]
  · exact run_moveTo_drawThen_eq_ok_iff

theorem run_oval_eq_ok_iff : (oval r).run c = (.ok (), t) ↔ ∃ k o, DrawsOval c r k o t := by
  rw [oval_eq, Act.run_bind_ok (Act.run_get c)]
  constructor
  · intro h
    obtain ⟨s, hs, h⟩ := Act.exists_of_run_bind_ofExcept h
    obtain ⟨o, ho, hx, hy⟩ := toOval_of_run_drawOval h
    rw [run_drawOval_of_toOval ho hx hy, run_joined_eq_ok_iff] at h
    obtain ⟨w, hw, ht⟩ := h
    have hk : (r.resolve c.pen.unit).map OvalRequest.call = .ok s.call := by
      rw [hs]
      rfl
    exact ⟨s.call, o, hk, s.readOval_call.trans ho, ⟨hx, hy⟩, ⟨w, hw⟩, ⟨_, o.toArc_real, rfl⟩, ht⟩
  · rintro ⟨k, o, hk, ho, ⟨hx, hy⟩, ⟨w, hw⟩, -, ht⟩
    rcases hs : r.resolve c.pen.unit with e | s
    · rw [hs] at hk
      cases hk
    · rw [hs] at hk
      cases hk
      rw [OvalRequest.readOval_call] at ho
      rw [Act.ofExcept_ok, pure_bind, run_drawOval_of_toOval ho hx hy, run_joined_eq_ok_iff]
      exact ⟨w, hw, ht⟩

/-- Every sweep is the one that is asked for, with exact angles. So an oval leaves the pen of a
canvas, on whatever surface, where the arc ends that its call describes. -/
theorem step_oval_ends (σ : Type) [Surface σ ℝ] :
    (∀ (θ₁ θ₂ : ℝ) (anticlockwise : Bool),
      Sweeps θ₁ θ₂ anticlockwise (sweepBetween θ₁ θ₂ anticlockwise)) ∧
      ∀ (r : OvalRequest ℝ) (c t : Canvas σ ℝ) (w : List Warning),
        step (.oval r) c = (.ok w, t) ↔ w = [] ∧ ∃ k o, DrawsOval c r k o t := by
  refine ⟨sweeps_sweepBetween, fun r c t w => ?_⟩
  rw [← run_oval_eq_ok_iff]
  change (quietly (oval r)).run c = _ ↔ _
  rw [run_quietly]
  rcases (oval r).run c with ⟨e | u, d⟩
  · simp
  · simp [eq_comm]

theorem step_oval_ends_turn_and_half :
    let c : Canvas (Recording ℝ) ℝ := fresh .empty true .radians
    let r : OvalRequest ℝ := ⟨⟨.number 0, .number 0⟩, ⟨.number 10, .number 10⟩, .number 0,
      .number 0, .number (3 * Real.pi), .flag false⟩
    ∃ t, step (.oval r) c = (.ok [], t) ∧ t.pen.current = some ⟨10, 0⟩ := by
  intro c r
  let o : Oval ℝ := ⟨⟨⟨0, 0⟩, ⟨10, 10⟩, 0⟩, 0, 3 * Real.pi, false⟩
  have hpi := Real.pi_pos
  have hends : o.terminus = ⟨10, 0⟩ := by
    rw [Oval.terminus, real_fullTurn, if_pos (by simp [o, reach]; linarith)]
    simp only [Oval.outset, Ellipse.point, Point.onUnitCircle_real, o]
    ext <;> simp
  let t : Canvas (Recording ℝ) ℝ := { c with
    surface := Recording.recordAll .empty (ovalCalls c.pen o r.call)
    pen := (c.pen.ensureOpen (some o.outset)).moveTo o.terminus }
  have hdraws : DrawsOval c r r.call o t :=
    ⟨rfl, rfl, by norm_num [o], ⟨[], Recording.performAll_eq _ _⟩, ⟨_, o.toArc_real, rfl⟩, rfl⟩
  refine ⟨t, ((step_oval_ends (Recording ℝ)).2 r c t []).mpr ⟨rfl, r.call, o, hdraws⟩, ?_⟩
  rw [← hends]
  rfl

end Ellipses

end Canvas

end Linework
