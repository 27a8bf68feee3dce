import Linework.Proofs.Canvas.Drawing

/-!
# One step of a canvas

An operation that draws takes strokes; any other makes at most one turn: it changes the style or
the unit, calls the surface for something that is no part of a path, or renews the canvas. What
every stroke and every turn keeps is kept by a run.
-/

set_option autoImplicit false

namespace Linework.Canvas

section Turns

variable {σ α : Type} [Surface σ α]

/-- The changes of a canvas other than drawing. Where the surface refuses a call, only the surface
has changed. -/
inductive Turn (c : Canvas σ α) : Canvas σ α → Prop
  | idle : Turn c c
  | unit (u : AngleUnit) : Turn c { c with pen := { c.pen with unit := u } }
  | style (s : Style) : Turn c { c with style := s }
  | lifted {k : Call α} {w : List Warning} {s : σ} (h : k.primitive.lifts)
      (hs : Surface.performAll [k] c.surface = (w, none, s)) :
      Turn c { c with surface := s, pen := c.pen.lift }
  | saved {w : List Warning} {s : σ}
      (hs : Surface.performAll [.save] c.surface = (w, none, s)) :
      Turn c { c with surface := s, saved := c.snapshot :: c.saved }
  | restored {n : Snapshot} {rest : List Snapshot} {w : List Warning} {s : σ}
      (h : c.saved = n :: rest) (hs : Surface.performAll [.restore] c.surface = (w, none, s)) :
      Turn c { ({ c with surface := s } : Canvas σ α).apply n with saved := rest }
  | reverted {n : Snapshot} {rest : List Snapshot} {w : List Warning} {s : σ}
      (h : c.saved = n :: rest)
      (hs : Surface.performAll [.restore, .save] c.surface = (w, none, s)) :
      Turn c (({ c with surface := s } : Canvas σ α).apply n)
  | painted {calls : List (Call α)} {w : List Warning} {s : σ}
      (h : ∀ k ∈ calls, k.primitive = .fill ∨ k.primitive = .stroke)
      (hs : Surface.performAll calls c.surface = (w, none, s)) : Turn c { c with surface := s }
  | refused {calls : List (Call α)} {w : List Warning} {e : Fault} {s : σ}
      (h : ∀ k ∈ calls, k.primitive.isPath = false)
      (hs : Surface.performAll calls c.surface = (w, some e, s)) : Turn c { c with surface := s }
  | reset {s : σ} (hs : (Surface.clear : Act σ Unit).run c.surface = (.ok (), s)) :
      Turn c ({ c with surface := s } : Canvas σ α).renewed
  | resetRefused {e : Fault} {s : σ}
      (hs : (Surface.clear : Act σ Unit).run c.surface = (.error e, s)) :
      Turn c { c with surface := s }

theorem turn_bind_get {β : Type} {f : Canvas σ α → Act (Canvas σ α) β} {c : Canvas σ α}
    (h : Turn c ((f c).run c).2) : Turn c ((get >>= f).run c).2 := by
  rwa [Act.run_bind_ok (Act.run_get c)]

theorem turn_bind_ofExcept {β γ : Type} {e : Except Fault β} {f : β → Act (Canvas σ α) γ}
    {c : Canvas σ α} (h : ∀ b, e = .ok b → Turn c ((f b).run c).2) :
    Turn c ((Act.ofExcept e >>= f).run c).2 := by
  cases e with
  | error e => exact .idle
  | ok b => exact h b rfl

theorem turn_bind_drawCalls {β : Type} {calls : List (Call α)} {m : Act (Canvas σ α) β}
    {c : Canvas σ α} (hp : ∀ k ∈ calls, k.primitive.isPath = false)
    (hm : ∀ w s, Surface.performAll calls c.surface = (w, none, s) →
      Turn c (m.run { c with surface := s }).2) :
    Turn c ((drawCalls calls >>= fun _ => m).run c).2 := by
  rcases hs : Surface.performAll calls c.surface with ⟨w, e, s⟩
  cases e with
  | none =>
    rw [Act.run_bind_ok (run_drawCalls_ok hs)]
    exact hm w s hs
  | some e =>
    rw [Act.run_bind_error (run_drawCalls_error hs)]
    exact .refused hp hs

theorem turn_lifting {k : Call α} (h : k.primitive.lifts) (c : Canvas σ α) :
    Turn c ((lifting k).run c).2 := by
  rw [lifting, ← drawCalls_singleton]
  apply turn_bind_drawCalls
  · intro l hl
    rw [List.mem_singleton.mp hl]
    revert h
    cases k.primitive <;> decide
  · intro w s hs
    exact .lifted h hs

theorem turn_save (c : Canvas σ α) : Turn c (save.run c).2 := by
  rw [save, ← drawCalls_singleton]
  apply turn_bind_drawCalls
  · simp [Call.save, Primitive.isPath]
  · intro w s hs
    exact .saved hs

theorem turn_restore (c : Canvas σ α) : Turn c (restore.run c).2 := by
  rw [restore]
  apply turn_bind_get
  cases h : c.saved with
  | nil => exact .idle
  | cons n rest =>
    simp only [← drawCalls_singleton]
    apply turn_bind_drawCalls
    · simp [Call.restore, Primitive.isPath]
    · intro w s hs
      exact .restored h hs

theorem bind_drawCalls_pair {β : Type} (k l : Call α) (m : Act (Canvas σ α) β) :
    (drawCalls [k, l] >>= fun _ => m) = (draw k >>= fun _ => draw l >>= fun _ => m) := by
  simp [drawCalls]

theorem turn_revert (c : Canvas σ α) : Turn c (revert.run c).2 := by
  rw [revert]
  apply turn_bind_get
  cases h : c.saved with
  | nil => exact .idle
  | cons n rest =>
    simp only [← bind_drawCalls_pair]
    apply turn_bind_drawCalls
    · simp [Call.restore, Call.save, Primitive.isPath]
    · intro w s hs
      exact .reverted h hs

/-- Painting changes nothing but the surface, whichever of its calls are carried out. -/
theorem turn_surface {calls : List (Call α)} {c : Canvas σ α} {w : List Warning}
    {e : Option Fault} {s : σ} (h : ∀ k ∈ calls, k.primitive = .fill ∨ k.primitive = .stroke)
    (hs : Surface.performAll calls c.surface = (w, e, s)) : Turn c { c with surface := s } := by
  cases e with
  | none => exact .painted h hs
  | some e =>
    refine .refused (fun k hk => ?_) hs
    rcases h k hk with hp | hp <;> rw [hp] <;> rfl

theorem turn_perform {k : Call α} (h : k.primitive = .fill ∨ k.primitive = .stroke)
    (c : Canvas σ α) : Turn c ((perform k).run c).2 := by
  have hk : ∀ l ∈ [k], l.primitive = .fill ∨ l.primitive = .stroke := by simpa using h
  rcases hs : (Surface.perform k : Act σ _).run c.surface with ⟨e | w, s⟩
  · rw [run_perform_error hs]
    exact turn_surface hk (performAll_cons_error hs)
  · rw [run_perform_ok hs]
    exact turn_surface hk (performAll_cons_ok hs)

theorem turn_fill (changes : Changes) (c : Canvas σ α) : Turn c ((fill changes).run c).2 := by
  rw [fill]
  apply turn_bind_get
  apply turn_bind_ofExcept
  intro s _
  exact turn_perform (.inl rfl) c

theorem turn_stroke (changes : Changes) (c : Canvas σ α) : Turn c ((stroke changes).run c).2 := by
  rw [stroke]
  apply turn_bind_get
  apply turn_bind_ofExcept
  intro s _
  exact turn_perform (.inr rfl) c

theorem turn_paint (changes : Changes) (c : Canvas σ α) : Turn c ((paint changes).run c).2 := by
  rw [paint]
  apply turn_bind_get
  apply turn_bind_ofExcept
  intro style _
  have hk : ∀ k ∈ [Call.fill style, Call.stroke style],
      (k : Call α).primitive = .fill ∨ k.primitive = .stroke := by
    simp [Call.fill, Call.stroke]
  rcases hf : (Surface.perform (Call.fill style) : Act σ _).run c.surface with ⟨e | w, s⟩
  · rw [Act.run_bind_error (run_perform_error hf)]
    exact turn_surface hk (performAll_cons_error hf)
  rw [Act.run_bind_ok (run_perform_ok hf)]
  rcases ht : (Surface.perform (Call.stroke style) : Act σ _).run s with ⟨e | v, t⟩
  · rw [Act.run_bind_error (run_perform_error (c := { c with surface := s }) ht)]
    have hs : Surface.performAll [Call.fill style, .stroke style] c.surface =
        (w ++ [], some e, t) := by
      rw [performAll_cons_ok hf, performAll_cons_error ht]
    exact turn_surface hk hs
  · rw [Act.run_bind_ok (run_perform_ok (c := { c with surface := s }) ht)]
    have hs : Surface.performAll [Call.fill style, .stroke style] c.surface =
        (w ++ (v ++ []), none, t) := by
      rw [performAll_cons_ok hf, performAll_cons_ok ht]
      rfl
    exact turn_surface hk hs

theorem turn_reset (c : Canvas σ α) : Turn c (reset.run c).2 := by
  rw [reset]
  rcases hs : (Surface.clear : Act σ Unit).run c.surface with ⟨e | u, s⟩
  · have hc : (onSurface Surface.clear).run c = (.error e, { c with surface := s }) := by
      rw [onSurface, Act.run_within, hs]
    rw [Act.run_bind_error hc]
    exact .resetRefused hs
  · have hc : (onSurface Surface.clear).run c = (.ok (), { c with surface := s }) := by
      rw [onSurface, Act.run_within, hs]
    rw [Act.run_bind_ok hc]
    exact .reset hs

omit [Surface σ α] in
theorem run_quietly_state (m : Act (Canvas σ α) Unit) (c : Canvas σ α) :
    ((quietly m).run c).2 = (m.run c).2 := by
  rw [run_quietly]
  rcases m.run c with ⟨_ | _, t⟩ <;> rfl

end Turns

section Views

variable {σ τ α : Type} {view : Canvas σ α → τ}

theorem leaves_quietly {m : Act (Canvas σ α) Unit} (h : Act.Leaves view m) :
    Act.Leaves view (quietly m) :=
  Act.leaves_bind h fun _ => Act.leaves_pure _

theorem ensures_quietly {p q : Canvas σ α → Prop} {m : Act (Canvas σ α) Unit}
    (h : Act.Ensures p q m) : Act.Ensures p q (quietly m) :=
  Act.ensures_bind h fun _ => Act.ensures_pure _

theorem leaves_setUnit
    (h : ∀ u (c : Canvas σ α), view { c with pen := { c.pen with unit := u } } = view c)
    (unit : Value) : Act.Leaves view (setUnit unit) :=
  Act.leaves_bind (Act.leaves_ofExcept _) fun u => Act.leaves_modify fun c => h u c

theorem leaves_setStyle (h : ∀ s (c : Canvas σ α), view { c with style := s } = view c)
    (changes : Changes) : Act.Leaves view (setStyle changes) :=
  Act.leaves_bind Act.leaves_get fun _ => Act.leaves_bind (Act.leaves_ofExcept _) fun s =>
    Act.leaves_modify fun c => h s c

variable [Surface σ α]

theorem leaves_fill (h : ∀ s, Act.Leaves view (perform (.fill s))) (changes : Changes) :
    Act.Leaves view (fill changes) :=
  Act.leaves_bind Act.leaves_get fun _ => Act.leaves_bind (Act.leaves_ofExcept _) fun s => h s

theorem leaves_stroke (h : ∀ s, Act.Leaves view (perform (.stroke s))) (changes : Changes) :
    Act.Leaves view (stroke changes) :=
  Act.leaves_bind Act.leaves_get fun _ => Act.leaves_bind (Act.leaves_ofExcept _) fun s => h s

theorem leaves_paint (hf : ∀ s, Act.Leaves view (perform (.fill s)))
    (hs : ∀ s, Act.Leaves view (perform (.stroke s))) (changes : Changes) :
    Act.Leaves view (paint changes) := by
  refine Act.leaves_bind Act.leaves_get fun _ => ?_
  refine Act.leaves_bind (Act.leaves_ofExcept _) fun s => ?_
  refine Act.leaves_bind (hf s) fun _ => Act.leaves_bind (hs s) fun _ => ?_
  exact Act.leaves_pure _

end Views

section Steps

variable {σ α : Type} [Scalar α] [Surface σ α]

theorem turn_rotate (angle : Argument α) (c : Canvas σ α) : Turn c ((rotate angle).run c).2 := by
  rw [rotate]
  apply turn_bind_get
  apply turn_bind_ofExcept
  intro turn _
  exact turn_lifting (k := .rotate turn) rfl c

omit [Scalar α] in
theorem turn_setUnit (unit : Value) (c : Canvas σ α) : Turn c ((setUnit unit).run c).2 := by
  rw [setUnit]
  apply turn_bind_ofExcept
  intro u _
  exact .unit u

omit [Scalar α] in
theorem turn_setStyle (changes : Changes) (c : Canvas σ α) :
    Turn c ((setStyle changes).run c).2 := by
  rw [setStyle]
  apply turn_bind_get
  apply turn_bind_ofExcept
  intro s _
  exact .style s

omit [Scalar α] in
theorem turn_quietly {m : Act (Canvas σ α) Unit} {c : Canvas σ α} (h : Turn c (m.run c).2) :
    Turn c ((quietly m).run c).2 := by
  rwa [run_quietly_state]

omit [Scalar α] [Surface σ α] in
theorem moves_quietly {r : Canvas σ α → Canvas σ α → Prop} {m : Act (Canvas σ α) Unit}
    {c : Canvas σ α} (h : Act.Moves r m c) : Act.Moves r (quietly m) c := by
  rwa [Act.Moves, run_quietly_state]

/-- What one operation does, whatever the surface makes of its calls. -/
theorem step_draws_or_turns (op : Op α) (c : Canvas σ α) :
    Relation.ReflTransGen (Drawing op.BreaksOff) c (step op c).2 ∨ Turn c (step op c).2 := by
  cases op with
  | command k as => exact .inl (moves_quietly (moves_command k as c id))
  | path text => exact .inl (moves_quietly (moves_path text c))
  | oval r => exact .inl (moves_quietly (moves_oval r c))
  | roundedCorner p1 p2 r => exact .inl (moves_quietly (moves_roundedCorner p1 p2 r c))
  | beginPath | translate _ | scale _ | transform _ | setTransform _ =>
    exact .inr (turn_quietly (turn_lifting rfl c))
  | rotate angle => exact .inr (turn_quietly (turn_rotate angle c))
  | save => exact .inr (turn_quietly (turn_save c))
  | restore => exact .inr (turn_restore c)
  | revert => exact .inr (turn_revert c)
  | setUnit unit => exact .inr (turn_quietly (turn_setUnit unit c))
  | set changes => exact .inr (turn_quietly (turn_setStyle changes c))
  | fill changes => exact .inr (turn_fill changes c)
  | stroke changes => exact .inr (turn_stroke changes c)
  | paint changes => exact .inr (turn_paint changes c)
  | reset => exact .inr (turn_quietly (turn_reset c))

theorem run_cons (op : Op α) (rest : List (Op α)) (c : Canvas σ α) :
    (run (op :: rest) c).2 = (run rest (step op c).2).2 := rfl

theorem run_append (ops more : List (Op α)) (c : Canvas σ α) :
    (run (ops ++ more) c).2 = (run more (run ops c).2).2 := by
  induction ops generalizing c with
  | nil => rfl
  | cons op rest ih => exact ih (step op c).2

theorem run_keeps {P : Canvas σ α → Prop} (h : ∀ op c, P c → P (step op c).2)
    (ops : List (Op α)) {c : Canvas σ α} (hc : P c) : P (run ops c).2 := by
  induction ops generalizing c with
  | nil => exact hc
  | cons op rest ih => exact ih (h op c hc)

theorem step_keeps {P : Canvas σ α → Prop}
    (hd : ∀ {stops : Prop} {c t : Canvas σ α}, Drawing stops c t → P c → P t)
    (ht : ∀ {c t : Canvas σ α}, Turn c t → P c → P t)
    (op : Op α) (c : Canvas σ α) (hc : P c) : P (step op c).2 := by
  have h := step_draws_or_turns op c
  generalize (step op c).2 = t at h ⊢
  rcases h with h | h
  · induction h with
    | refl => exact hc
    | tail _ hst ih => exact hd hst ih
  · exact ht h hc

end Steps

end Linework.Canvas
