import Linework.Proofs.Canvas.Planned

/-!
# Surfaces that are watched

A surface that is watched does what it did before, and notes the calls that it has answered since
it was cleared and the first call that it has refused. A canvas cannot tell it from the surface
itself, since a canvas never looks at its surface: maps between surfaces that answer alike carry
over to whole runs.
-/

set_option autoImplicit false

namespace Linework

namespace Canvas

variable {σ α : Type} [Scalar α] [Surface σ α] {c : Canvas σ α} {s : σ}

theorem step_reset_ok (h : (Surface.clear : Act σ Unit).run c.surface = (.ok (), s)) :
    step .reset c = (.ok [], fresh s c.autoOpen c.defaultUnit) := by
  have hc : (onSurface Surface.clear).run c = (.ok (), c.on s) := by
    rw [onSurface, Act.run_within, h]
    rfl
  rw [step, act, quietly, reset, bind_assoc, Act.run_bind_ok hc]
  rfl

theorem step_reset_error {e : Fault}
    (h : (Surface.clear : Act σ Unit).run c.surface = (.error e, s)) :
    step .reset c = (.error e, c.on s) := by
  have hc : (onSurface Surface.clear).run c = (.error e, c.on s) := by
    rw [onSurface, Act.run_within, h]
    rfl
  rw [step, act, quietly, reset, bind_assoc, Act.run_bind_error hc]

theorem surface_reset (c : Canvas σ α) :
    (step .reset c).2.surface = ((Surface.clear : Act σ Unit).run c.surface).2 := by
  rcases h : (Surface.clear : Act σ Unit).run c.surface with ⟨e | u, s⟩
  · rw [step_reset_error h]
    rfl
  · rw [step_reset_ok h]
    rfl

theorem outcomes_cons (op : Op α) (rest : List (Op α)) (c : Canvas σ α) :
    (run (op :: rest) c).1 = (step op c).1 :: (run rest (step op c).2).1 := rfl

end Canvas

namespace Surface

variable {σ τ α : Type} [Surface σ α] [Surface τ α]

/-- A map of surfaces that answer alike, to the same calls and with the same warnings and faults. -/
structure Carries (f : σ → τ) : Prop where
  perform_eq : ∀ (k : Call α) (s : σ), (perform k : Act τ (List Warning)).run (f s) =
    (((perform k : Act σ (List Warning)).run s).1, f ((perform k : Act σ (List Warning)).run s).2)
  clear_eq : ∀ s : σ, (clear : Act τ Unit).run (f s) =
    (((clear : Act σ Unit).run s).1, f ((clear : Act σ Unit).run s).2)

theorem performAll_append_of_none {calls more : List (Call α)} {s t : σ} {w : List Warning}
    (h : performAll calls s = (w, none, t)) :
    performAll (calls ++ more) s = (w ++ (performAll more t).1, (performAll more t).2) := by
  induction calls generalizing s w with
  | nil =>
    cases h
    rfl
  | cons k rest ih =>
    rcases hk : (perform k : Act σ (List Warning)).run s with ⟨e | v, u⟩
    · rw [Canvas.performAll_cons_error hk] at h
      cases h
    · rw [Canvas.performAll_cons_ok hk, Prod.mk.injEq] at h
      obtain ⟨rfl, h⟩ := h
      rw [List.cons_append, Canvas.performAll_cons_ok hk, ih (Prod.ext rfl h), List.append_assoc]

theorem exists_refused {calls : List (Call α)} {s t : σ} {w : List Warning} {e : Fault}
    (h : performAll calls s = (w, some e, t)) :
    ∃ before k after u, calls = before ++ k :: after ∧ performAll before s = (w, none, u) ∧
      (perform k : Act σ (List Warning)).run u = (.error e, t) := by
  induction calls generalizing s w with
  | nil => cases h
  | cons k rest ih =>
    rcases hk : (perform k : Act σ (List Warning)).run s with ⟨f | v, u⟩
    · rw [Canvas.performAll_cons_error hk] at h
      cases h
      exact ⟨[], k, rest, s, rfl, rfl, hk⟩
    · rw [Canvas.performAll_cons_ok hk, Prod.mk.injEq] at h
      obtain ⟨rfl, h⟩ := h
      obtain ⟨before, l, after, x, rfl, hb, hl⟩ := ih (Prod.ext rfl h)
      refine ⟨k :: before, l, after, x, rfl, ?_, hl⟩
      rw [Canvas.performAll_cons_ok hk, hb]

theorem performAll_of_refused {before after : List (Call α)} {k : Call α} {s u t : σ}
    {w : List Warning} {e : Fault} (hb : performAll before s = (w, none, u))
    (hk : (perform k : Act σ (List Warning)).run u = (.error e, t)) :
    performAll (before ++ k :: after) s = (w, some e, t) := by
  rw [performAll_append_of_none hb, Canvas.performAll_cons_error hk, List.append_nil]

namespace Carries

variable {f : σ → τ} (h : Carries f)

include h

theorem performAll_eq (calls : List (Call α)) (s : σ) :
    performAll calls (f s) =
      ((performAll calls s).1, (performAll calls s).2.1, f (performAll calls s).2.2) := by
  induction calls generalizing s with
  | nil => rfl
  | cons k rest ih =>
    have hf := h.perform_eq k s
    rcases hk : (perform k : Act σ (List Warning)).run s with ⟨e | v, u⟩
    · rw [hk] at hf
      rw [Canvas.performAll_cons_error hk, Canvas.performAll_cons_error hf]
    · rw [hk] at hf
      rw [Canvas.performAll_cons_ok hk, Canvas.performAll_cons_ok hf, ih]

theorem attempt_eq (dues : List (Due α)) (s : σ) :
    Plan.attempt dues (f s) =
      ((Plan.attempt dues s).1, (Plan.attempt dues s).2.1, f (Plan.attempt dues s).2.2) := by
  induction dues generalizing s with
  | nil => rfl
  | cons d rest ih =>
    have hf := h.perform_eq d.call s
    rcases hk : (perform d.call : Act σ (List Warning)).run s with ⟨e | v, u⟩
    · rw [hk] at hf
      rw [Plan.attempt_cons_error hk, Plan.attempt_cons_error hf]
    · rw [hk] at hf
      rw [Plan.attempt_cons_ok hk, Plan.attempt_cons_ok hf, ih]

theorem on_eq {β : Type} (p : Plan α β) (s : σ) :
    p.on (f s) = ((p.on s).1, (p.on s).2.on (f (p.on s).2.surface)) := by
  rw [Plan.on, Plan.on, h.attempt_eq]
  rcases Plan.attempt p.dues s with ⟨w, stop | stop, t⟩ <;> rfl

variable [Scalar α]

theorem step_eq (op : Op α) (c : Canvas σ α) :
    Canvas.step op (c.on (f c.surface)) =
      ((Canvas.step op c).1, (Canvas.step op c).2.on (f (Canvas.step op c).2.surface)) := by
  by_cases hop : op = .reset
  · subst hop
    have hf := h.clear_eq c.surface
    rcases hs : (clear : Act σ Unit).run c.surface with ⟨e | u, s⟩
    · rw [hs] at hf
      rw [Canvas.step_reset_error hs, Canvas.step_reset_error (c := c.on (f c.surface)) hf]
      rfl
    · rw [hs] at hf
      rw [Canvas.step_reset_ok hs, Canvas.step_reset_ok (c := c.on (f c.surface)) hf]
      rfl
  · obtain ⟨p, -, hp⟩ := Canvas.planned_act hop (c.on ())
    have hstep : Canvas.step op c = p.on c.surface := hp σ c.surface
    have hmapped : Canvas.step op (c.on (f c.surface)) = p.on (f c.surface) := hp τ (f c.surface)
    rw [hstep, hmapped, h.on_eq]

theorem run_eq (ops : List (Op α)) (c : Canvas σ α) :
    Canvas.run ops (c.on (f c.surface)) =
      ((Canvas.run ops c).1, (Canvas.run ops c).2.on (f (Canvas.run ops c).2.surface)) := by
  induction ops generalizing c with
  | nil => rfl
  | cons op rest ih =>
    apply Prod.ext
    · rw [Canvas.outcomes_cons, Canvas.outcomes_cons, h.step_eq, ih]
    · rw [Canvas.run_cons, h.step_eq, ih]
      rfl

end Carries

end Surface

/-- The first call that a surface has refused: what it had answered since it was cleared, the call
with its fault, and what was left of the surface. -/
structure Refusal (σ α : Type) where
  before : List (Call α)
  call : Call α
  fault : Fault
  left : σ

structure Watched (σ α : Type) where
  surface : σ
  /-- The calls that were answered since the surface was cleared. -/
  answered : List (Call α)
  refusal : Option (Refusal σ α)

namespace Watched

variable {σ α : Type}

def fresh (s : σ) : Watched σ α := ⟨s, [], none⟩

variable [Surface σ α]

instance : Surface (Watched σ α) α where
  perform k := Act.ofRun fun w =>
    match (Surface.perform k : Act σ (List Warning)).run w.surface with
    | (.ok warnings, s) => (.ok warnings, { w with surface := s, answered := w.answered ++ [k] })
    | (.error e, s) =>
      (.error e, { w with surface := s, refusal := w.refusal <|> some ⟨w.answered, k, e, s⟩ })
  clear := Surface.clear.within Watched.surface fun w s => { w with surface := s, answered := [] }

theorem perform_ok {k : Call α} {w : Watched σ α} {s : σ} {v : List Warning}
    (h : (Surface.perform k : Act σ (List Warning)).run w.surface = (.ok v, s)) :
    (Surface.perform k : Act (Watched σ α) (List Warning)).run w =
      (.ok v, { w with surface := s, answered := w.answered ++ [k] }) := by
  change (match (Surface.perform k : Act σ (List Warning)).run w.surface with
    | (.ok warnings, s) => (.ok warnings, { w with surface := s, answered := w.answered ++ [k] })
    | (.error e, s) => (.error e,
        { w with surface := s, refusal := w.refusal <|> some ⟨w.answered, k, e, s⟩ }) :
      Except Fault (List Warning) × Watched σ α) = _
  rw [h]

theorem perform_error {k : Call α} {w : Watched σ α} {s : σ} {e : Fault}
    (h : (Surface.perform k : Act σ (List Warning)).run w.surface = (.error e, s)) :
    (Surface.perform k : Act (Watched σ α) (List Warning)).run w = (.error e,
      { w with surface := s, refusal := w.refusal <|> some ⟨w.answered, k, e, s⟩ }) := by
  change (match (Surface.perform k : Act σ (List Warning)).run w.surface with
    | (.ok warnings, s) => (.ok warnings, { w with surface := s, answered := w.answered ++ [k] })
    | (.error e, s) => (.error e,
        { w with surface := s, refusal := w.refusal <|> some ⟨w.answered, k, e, s⟩ }) :
      Except Fault (List Warning) × Watched σ α) = _
  rw [h]

theorem carries : Surface.Carries (Watched.surface : Watched σ α → σ) where
  perform_eq k w := by
    rcases h : (Surface.perform k : Act σ (List Warning)).run w.surface with ⟨e | v, s⟩
    · rw [perform_error h]
    · rw [perform_ok h]
  clear_eq w := rfl

theorem run_watched [Scalar α] (ops : List (Op α)) (s : σ) (autoOpen : Bool) (unit : AngleUnit) :
    let watched := Canvas.run ops (Canvas.fresh (fresh s : Watched σ α) autoOpen unit)
    Canvas.run ops (Canvas.fresh s autoOpen unit) =
      (watched.1, watched.2.on watched.2.surface.surface) :=
  carries.run_eq ops (Canvas.fresh (fresh s : Watched σ α) autoOpen unit)

theorem answered_of_none {calls : List (Call α)} {w x : Watched σ α} {v : List Warning}
    (h : Surface.performAll calls w = (v, none, x)) :
    x.answered = w.answered ++ calls ∧ x.refusal = w.refusal := by
  induction calls generalizing w v with
  | nil =>
    cases h
    exact ⟨(List.append_nil _).symm, rfl⟩
  | cons k rest ih =>
    rcases hk : (Surface.perform k : Act σ (List Warning)).run w.surface with ⟨e | u, s⟩
    · rw [Canvas.performAll_cons_error (perform_error hk)] at h
      cases h
    · rw [Canvas.performAll_cons_ok (perform_ok hk), Prod.mk.injEq] at h
      obtain ⟨ha, hr⟩ := ih (Prod.ext rfl h.2)
      exact ⟨by rw [ha, List.append_assoc, List.singleton_append], hr⟩

theorem refusal_of_some {calls : List (Call α)} {w x : Watched σ α} {v : List Warning} {e : Fault}
    (h : Surface.performAll calls w = (v, some e, x)) :
    ∃ before k after u, calls = before ++ k :: after ∧
      Surface.performAll before w.surface = (v, none, u) ∧
      (Surface.perform k : Act σ (List Warning)).run u = (.error e, x.surface) ∧
      x.refusal = (w.refusal <|> some ⟨w.answered ++ before, k, e, x.surface⟩) := by
  obtain ⟨before, k, after, y, rfl, hb, hk⟩ := Surface.exists_refused h
  obtain ⟨ha, hr⟩ := answered_of_none hb
  have hs := carries.performAll_eq before w
  rw [hb] at hs
  have hy := carries.perform_eq k y
  rw [hk] at hy
  refine ⟨before, k, after, y.surface, rfl, hs, hy, ?_⟩
  rw [perform_error hy] at hk
  rw [← hr, ← ha]
  exact (congrArg (fun p => p.2.refusal) hk).symm

theorem refusal_performAll {n : Refusal σ α} {w : Watched σ α} (h : w.refusal = some n)
    (calls : List (Call α)) : (Surface.performAll calls w).2.2.refusal = some n := by
  rcases hs : Surface.performAll calls w with ⟨v, e | e, x⟩
  · exact (answered_of_none hs).2.trans h
  · obtain ⟨before, k, after, u, -, -, -, hr⟩ := refusal_of_some hs
    rw [hr, h]
    rfl

theorem refusal_step [Scalar α] {n : Refusal σ α} (op : Op α) (c : Canvas (Watched σ α) α)
    (h : c.surface.refusal = some n) : (Canvas.step op c).2.surface.refusal = some n := by
  by_cases hop : op = .reset
  · subst hop
    rw [Canvas.surface_reset]
    exact h
  · obtain ⟨p, -, hp⟩ := Canvas.planned_act hop (c.on ())
    have hstep : Canvas.step op c = p.on c.surface := hp _ c.surface
    have hkeep := refusal_performAll h p.calls
    rw [hstep]
    rcases hs : Surface.performAll p.calls c.surface with ⟨v, e | e, x⟩
    · rw [hs] at hkeep
      rw [Plan.on_of_none hs]
      exact hkeep
    · obtain ⟨left, hleft⟩ := Plan.on_of_some hs
      rw [hs] at hkeep
      rw [hleft]
      exact hkeep

theorem refusal_run [Scalar α] {n : Refusal σ α} (ops : List (Op α))
    {c : Canvas (Watched σ α) α} (h : c.surface.refusal = some n) :
    (Canvas.run ops c).2.surface.refusal = some n :=
  Canvas.run_keeps (P := fun c => c.surface.refusal = some n)
    (fun op c hc => refusal_step op c hc) ops h

end Watched

end Linework
