import Linework.Proofs.Canvas.Step
import Linework.Surface.Recording

/-!
# A canvas on a recording

A recording never refuses a call, so that every stroke and every turn of a canvas on it adds its
calls in full. A turn then does one of three things: it leaves the path alone, it lifts the pen,
or it clears the recording.
-/

set_option autoImplicit false

namespace Linework

def Primitive.isNeutral (p : Primitive) : Bool := !p.isPath && !p.lifts

theorem Primitive.isNeutral_iff {p : Primitive} :
    p.isNeutral ↔ p.isPath = false ∧ p.lifts = false := by
  simp [isNeutral]

namespace Recording

variable {α : Type}

def recordAll (r : Recording α) (calls : List (Call α)) : Recording α :=
  ⟨calls.reverse ++ r.backwards⟩

@[simp] theorem calls_recordAll (r : Recording α) (calls : List (Call α)) :
    (r.recordAll calls).calls = r.calls ++ calls := by
  simp [Recording.calls, recordAll]

theorem performAll_eq (calls : List (Call α)) (r : Recording α) :
    Surface.performAll calls r = ([], none, r.recordAll calls) := by
  induction calls generalizing r with
  | nil => rfl
  | cons k rest ih =>
    have hk : (Surface.perform k : Act (Recording α) _).run r = (.ok [], r.record k) := rfl
    rw [Canvas.performAll_cons_ok hk, ih]
    simp [recordAll, record]

theorem eq_of_performAll {calls : List (Call α)} {r s : Recording α} {w : List Warning}
    (h : Surface.performAll calls r = (w, none, s)) : s = r.recordAll calls := by
  rw [performAll_eq] at h
  cases h
  rfl

theorem not_refused {calls : List (Call α)} {r s : Recording α} {w : List Warning} {e : Fault} :
    Surface.performAll calls r ≠ (w, some e, s) := by
  rw [performAll_eq]
  rintro ⟨⟩

end Recording

namespace Canvas

variable {α : Type} {c t : Canvas (Recording α) α}

theorem run_drawThen_recording (calls : List (Call α)) (f : Pen α → Pen α)
    (c : Canvas (Recording α) α) :
    (drawThen calls f).run c =
      (.ok (), { c with surface := c.surface.recordAll calls, pen := f c.pen }) := by
  rw [drawThen, Act.run_bind_ok (run_drawCalls_ok (Recording.performAll_eq calls c.surface))]
  rfl

/-- On a recording a stroke adds its calls. The pen follows or, after lines that leave it behind,
is still where the stroke found it. -/
theorem recorded_of_drawing [Scalar α] {stops : Prop} (h : Drawing stops c t) :
    ∃ calls q, c.pen.Draws calls q ∧ t.surface = c.surface.recordAll calls ∧
      (t.pen = q ∨ stops ∧ c.pen.isOpen ∧ t.pen = c.pen ∧ q.start = c.pen.start) := by
  cases h with
  | drawn hp hs => exact ⟨_, _, hp, Recording.eq_of_performAll hs, .inl rfl⟩
  | refused hp hs => exact absurd hs Recording.not_refused
  | ahead ho hs => exact absurd hs Recording.not_refused
  | stopped h ho hs =>
    exact ⟨_, _, .lines ho _ _, Recording.eq_of_performAll hs, .inr ⟨h, ho, rfl, rfl⟩⟩

inductive Recorded (c t : Canvas (Recording α) α) : Prop
  | neutral (calls : List (Call α)) (hk : ∀ k ∈ calls, k.primitive.isNeutral)
      (hs : t.surface = c.surface.recordAll calls) (hc : t.pen.current = c.pen.current)
      (hp : t.pen.start = c.pen.start)
  | lifted (k : Call α) (hk : k.primitive.lifts) (hs : t.surface = c.surface.recordAll [k])
      (hp : t.pen = c.pen.lift)
  | cleared (unit : AngleUnit) (hs : t.surface = .empty) (hp : t.pen = .fresh unit)

theorem recorded_of_turn (h : Turn c t) : Recorded c t := by
  cases h with
  | idle | unit u | style s => exact .neutral [] (by simp) rfl rfl rfl
  | lifted hl hs => exact .lifted _ hl (Recording.eq_of_performAll hs) rfl
  | saved hs =>
    exact .neutral _ (List.forall_mem_singleton.mpr rfl) (Recording.eq_of_performAll hs) rfl rfl
  | restored hn hs =>
    exact .neutral _ (List.forall_mem_singleton.mpr rfl) (Recording.eq_of_performAll hs) rfl rfl
  | reverted hn hs =>
    have hk : ∀ k ∈ [Call.restore, .save], (k : Call α).primitive.isNeutral := by
      simp [Call.restore, Call.save, Primitive.isNeutral, Primitive.isPath, Primitive.lifts]
    exact .neutral _ hk (Recording.eq_of_performAll hs) rfl rfl
  | painted hk hs =>
    refine .neutral _ (fun k hmem => ?_) (Recording.eq_of_performAll hs) rfl rfl
    rcases hk k hmem with hp | hp <;> rw [hp] <;> rfl
  | refused hk hs => exact absurd hs Recording.not_refused
  | reset hs =>
    cases hs
    exact .cleared _ rfl rfl
  | resetRefused hs => cases hs

end Canvas

end Linework
