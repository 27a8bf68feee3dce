import Linework.Proofs.Canvas.Calls

/-!
# Plans

A canvas never looks at its surface. So what an operation will ask for is settled before it starts:
its calls in order, each with the canvas that is left behind if the surface refuses it, and the
answer and the canvas at the end. The surface only decides how far such a plan is carried out.
-/

set_option autoImplicit false

namespace Linework

namespace Canvas

def on {σ τ α : Type} (c : Canvas τ α) (s : σ) : Canvas σ α :=
  ⟨s, c.autoOpen, c.defaultUnit, c.pen, c.style, c.saved⟩

abbrev Bare (α : Type) := Canvas Unit α

end Canvas

open Canvas (Bare)

/-- A call that is due, and what is left of the canvas if it is refused. -/
structure Due (α : Type) where
  call : Call α
  left : Bare α

/-- What an action is going to do. The warnings of the surface may go into the answer. -/
structure Plan (α β : Type) where
  dues : List (Due α)
  answer : List Warning → Except Fault β
  after : Bare α

namespace Plan

variable {σ τ α β : Type} [Surface σ α]

def calls (p : Plan α β) : List (Call α) := p.dues.map Due.call

def attempt : List (Due α) → σ → List Warning × Option (Fault × Bare α) × σ
  | [], s => ([], none, s)
  | d :: rest, s =>
    match (Surface.perform d.call : Act σ (List Warning)).run s with
    | (.error e, s) => ([], some (e, d.left), s)
    | (.ok warnings, s) =>
      let (more, stop, s) := attempt rest s
      (warnings ++ more, stop, s)

def on (p : Plan α β) (s : σ) : Except Fault β × Canvas σ α :=
  match attempt p.dues s with
  | (warnings, none, s) => (p.answer warnings, p.after.on s)
  | (_, some (e, left), s) => (.error e, left.on s)

theorem attempt_cons_ok {d : Due α} {rest : List (Due α)} {s t : σ} {w : List Warning}
    (h : (Surface.perform d.call : Act σ _).run s = (.ok w, t)) :
    attempt (d :: rest) s = (w ++ (attempt rest t).1, (attempt rest t).2) := by
  rw [attempt, h]

theorem attempt_cons_error {d : Due α} {rest : List (Due α)} {s t : σ} {e : Fault}
    (h : (Surface.perform d.call : Act σ _).run s = (.error e, t)) :
    attempt (d :: rest) s = ([], some (e, d.left), t) := by
  rw [attempt, h]

theorem attempt_append_of_none {dues more : List (Due α)} {s t : σ} {w : List Warning}
    (h : attempt dues s = (w, none, t)) :
    attempt (dues ++ more) s = (w ++ (attempt more t).1, (attempt more t).2) := by
  induction dues generalizing s w with
  | nil =>
    cases h
    rfl
  | cons d rest ih =>
    rcases hd : (Surface.perform d.call : Act σ _).run s with ⟨e | v, u⟩
    · rw [attempt_cons_error hd] at h
      cases h
    · rw [attempt_cons_ok hd, Prod.mk.injEq] at h
      obtain ⟨rfl, h⟩ := h
      rw [List.cons_append, attempt_cons_ok hd, ih (Prod.ext rfl h), List.append_assoc]

theorem attempt_append_of_some {dues : List (Due α)} {s t : σ} {w : List Warning}
    {stop : Fault × Bare α} (h : attempt dues s = (w, some stop, t)) (more : List (Due α)) :
    attempt (dues ++ more) s = (w, some stop, t) := by
  induction dues generalizing s w with
  | nil => cases h
  | cons d rest ih =>
    rcases hd : (Surface.perform d.call : Act σ _).run s with ⟨e | v, u⟩
    · rw [attempt_cons_error hd] at h
      rw [List.cons_append, attempt_cons_error hd, h]
    · rw [attempt_cons_ok hd, Prod.mk.injEq] at h
      obtain ⟨rfl, h⟩ := h
      rw [List.cons_append, attempt_cons_ok hd, ih (Prod.ext rfl h)]

theorem performAll_calls (dues : List (Due α)) (s : σ) :
    Surface.performAll (dues.map Due.call) s =
      ((attempt dues s).1, (attempt dues s).2.1.map Prod.fst, (attempt dues s).2.2) := by
  induction dues generalizing s with
  | nil => rfl
  | cons d rest ih =>
    rcases hd : (Surface.perform d.call : Act σ _).run s with ⟨e | v, u⟩
    · rw [List.map_cons, Canvas.performAll_cons_error hd, attempt_cons_error hd]
      rfl
    · rw [List.map_cons, Canvas.performAll_cons_ok hd, ih, attempt_cons_ok hd]

theorem on_of_none {p : Plan α β} {s t : σ} {w : List Warning}
    (h : Surface.performAll p.calls s = (w, none, t)) : p.on s = (p.answer w, p.after.on t) := by
  rw [calls, performAll_calls] at h
  rw [on]
  rcases ha : attempt p.dues s with ⟨v, stop | stop, u⟩
  · rw [ha] at h
    cases h
    rfl
  · rw [ha] at h
    cases h

theorem on_of_some {p : Plan α β} {s t : σ} {w : List Warning} {e : Fault}
    (h : Surface.performAll p.calls s = (w, some e, t)) :
    ∃ left : Bare α, p.on s = (.error e, left.on t) := by
  rw [calls, performAll_calls] at h
  rw [on]
  rcases ha : attempt p.dues s with ⟨v, stop | ⟨f, left⟩, u⟩
  · rw [ha] at h
    cases h
  · rw [ha] at h
    cases h
    exact ⟨left, rfl⟩

end Plan

namespace Canvas

section Planned

variable {α β γ : Type}

/-- An action has the same plan on all surfaces, and its answer is without warnings of theirs. -/
def Planned (m : ∀ (σ : Type) [Surface σ α], Act (Canvas σ α) β) (c : Bare α) : Prop :=
  ∃ dues answer after, ∀ (σ : Type) [Surface σ α] (s : σ),
    (m σ).run (c.on s) = (⟨dues, fun _ => answer, after⟩ : Plan α β).on s

theorem Planned.congr {m n : ∀ (σ : Type) [Surface σ α], Act (Canvas σ α) β} {c : Bare α}
    (h : Planned n c) (he : ∀ (σ : Type) [Surface σ α] (s : σ),
      (m σ).run (c.on s) = (n σ).run (c.on s)) : Planned m c := by
  obtain ⟨dues, answer, after, h⟩ := h
  exact ⟨dues, answer, after, fun σ _ s => (he σ s).trans (h σ s)⟩

theorem planned_ofExcept (e : Except Fault β) (c : Bare α) :
    Planned (fun _ _ => Act.ofExcept e) c :=
  ⟨[], e, c, fun _ _ _ => rfl⟩

theorem planned_pure (b : β) (c : Bare α) : Planned (fun _ _ => pure b) c :=
  planned_ofExcept (.ok b) c

theorem planned_throw (e : Fault) (c : Bare α) :
    Planned (fun _ _ => (throw e : Act _ β)) c :=
  planned_ofExcept (.error e) c

theorem planned_modify (f : ∀ σ : Type, Canvas σ α → Canvas σ α) {c : Bare α}
    (hf : ∀ (σ : Type) (s : σ), f σ (c.on s) = (f Unit c).on s) :
    Planned (fun σ _ => (modify (f σ) : Act (Canvas σ α) PUnit)) c :=
  ⟨[], .ok ⟨⟩, f Unit c, fun σ _ s => congrArg (Prod.mk _) (hf σ s)⟩

theorem planned_movePen (f : Pen α → Pen α) (c : Bare α) : Planned (fun _ _ => movePen f) c :=
  planned_modify (fun _ d => d.withPen f) fun _ _ => rfl

theorem planned_draw (k : Call α) (c : Bare α) : Planned (fun _ _ => draw k) c := by
  refine ⟨[⟨k, c⟩], .ok (), c, fun σ _ s => ?_⟩
  rcases hk : (Surface.perform k : Act σ _).run s with ⟨e | w, t⟩
  · rw [run_draw_error (c := c.on s) hk, Plan.on, Plan.attempt_cons_error hk]
    rfl
  · rw [run_draw_ok (c := c.on s) hk, Plan.on, Plan.attempt_cons_ok hk]
    rfl

theorem planned_bind {m : ∀ (σ : Type) [Surface σ α], Act (Canvas σ α) β}
    {f : ∀ (σ : Type) [Surface σ α], β → Act (Canvas σ α) γ} {c : Bare α} (hm : Planned m c)
    (hf : ∀ b d, Planned (fun σ _ => f σ b) d) : Planned (fun σ _ => m σ >>= f σ) c := by
  obtain ⟨dues, answer, after, hm⟩ := hm
  cases answer with
  | error e =>
    refine ⟨dues, .error e, after, fun σ _ s => ?_⟩
    rw [Act.run_bind, hm σ s, Plan.on, Plan.on]
    rcases Plan.attempt dues s with ⟨w, stop | stop, t⟩ <;> rfl
  | ok b =>
    obtain ⟨more, answer, last, hf⟩ := hf b after
    refine ⟨dues ++ more, answer, last, fun σ _ s => ?_⟩
    rcases ha : Plan.attempt dues s with ⟨w, stop | stop, t⟩
    · rw [Act.run_bind_ok (b := b) (t := after.on t) (by rw [hm σ s, Plan.on, ha]), hf σ t,
        Plan.on, Plan.on, Plan.attempt_append_of_none ha]
      dsimp only
      rcases Plan.attempt more t with ⟨v, stop | stop, u⟩ <;> rfl
    · rw [Act.run_bind_error (e := stop.1) (t := stop.2.on t) (by rw [hm σ s, Plan.on, ha]),
        Plan.on, Plan.attempt_append_of_some ha]

theorem planned_get {f : ∀ (σ : Type) [Surface σ α], Canvas σ α → Act (Canvas σ α) β}
    {n : ∀ (σ : Type) [Surface σ α], Act (Canvas σ α) β} {c : Bare α} (h : Planned n c)
    (he : ∀ (σ : Type) [Surface σ α] (s : σ), f σ (c.on s) = n σ) :
    Planned (fun σ _ => get >>= f σ) c :=
  h.congr fun σ _ s => by rw [Act.run_bind_ok (Act.run_get _), he σ s]

theorem planned_bind_ofExcept {e : Except Fault β}
    {f : ∀ (σ : Type) [Surface σ α], β → Act (Canvas σ α) γ} {c : Bare α}
    (hf : ∀ b, Planned (fun σ _ => f σ b) c) : Planned (fun σ _ => Act.ofExcept e >>= f σ) c := by
  cases e with
  | error e => exact planned_throw e c
  | ok b => exact hf b

end Planned

end Canvas

end Linework
