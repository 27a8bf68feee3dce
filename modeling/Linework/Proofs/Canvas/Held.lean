import Linework.Proofs.Canvas.Step

/-!
# What is held back

Four operations touch what is saved: saving, restoring, going back and a reset. The others leave
the snapshots of a canvas alone, and with them all of the surface that no call but saving and
restoring changes, whether they fail or not.
-/

set_option autoImplicit false

namespace Linework

def Op.isSaving {α : Type} : Op α → Bool
  | .save | .restore | .revert | .reset => true
  | _ => false

theorem Primitive.not_saving_of_isPath {p : Primitive} (h : p.isPath) :
    p ≠ .save ∧ p ≠ .restore := by
  revert h
  cases p <;> decide

namespace Canvas

section Views

variable {σ τ α : Type} {view : σ → τ}

def held (view : σ → τ) (c : Canvas σ α) : List Snapshot × τ := (c.saved, view c.surface)

theorem held_movePen (f : Pen α → Pen α) :
    Act.Leaves (held view) (movePen f : Act (Canvas σ α) Unit) :=
  Act.leaves_modify fun _ => rfl

end Views

section GoingBack

variable {σ α : Type} [Surface σ α] {c : Canvas σ α}

theorem run_restore_of_nil (hc : c.saved = []) :
    restore.run c = (.ok [.restoreIgnored], c) := by
  rw [restore, Act.run_bind_ok (Act.run_get c), hc]
  rfl

theorem run_revert_of_nil (hc : c.saved = []) : revert.run c = (.ok [.revertIgnored], c) := by
  rw [revert, Act.run_bind_ok (Act.run_get c), hc]
  rfl

variable {n : Snapshot} {rest : List Snapshot} {s t : σ} {w v : List Warning}

theorem run_restore_of_cons (hc : c.saved = n :: rest)
    (hs : (Surface.perform .restore : Act σ _).run c.surface = (.ok w, s)) :
    restore.run c = (.ok [], { c.apply n with surface := s, saved := rest }) := by
  rw [restore, Act.run_bind_ok (Act.run_get c), hc]
  change (draw .restore >>= _).run c = _
  rw [Act.run_bind_ok (run_draw_ok hs)]
  rfl

theorem run_revert_of_cons (hc : c.saved = n :: rest)
    (hs : (Surface.perform .restore : Act σ _).run c.surface = (.ok w, s))
    (ht : (Surface.perform .save : Act σ _).run s = (.ok v, t)) :
    revert.run c = (.ok [], { c.apply n with surface := t }) := by
  rw [revert, Act.run_bind_ok (Act.run_get c), hc]
  change (draw .restore >>= _).run c = _
  rw [Act.run_bind_ok (run_draw_ok hs),
    Act.run_bind_ok (run_draw_ok (c := { c with surface := s }) ht)]
  rfl

end GoingBack

variable {σ τ α : Type} [Surface σ α]

/-- A view that only saving and restoring can change. -/
def SeesSaves (view : σ → τ) : Prop :=
  ∀ k : Call α, k.primitive ≠ .save → k.primitive ≠ .restore →
    Act.Leaves view (Surface.perform k : Act σ (List Warning))

variable {view : σ → τ} (hv : SeesSaves view)

include hv

theorem SeesSaves.performAll {calls : List (Call α)}
    (h : ∀ k ∈ calls, k.primitive ≠ .save ∧ k.primitive ≠ .restore) (s : σ) :
    view (Surface.performAll calls s).2.2 = view s := by
  induction calls generalizing s with
  | nil => rfl
  | cons k rest ih =>
    obtain ⟨hs, hr⟩ := h k List.mem_cons_self
    have hk := hv k hs hr s
    rcases hp : (Surface.perform k : Act σ _).run s with ⟨e | w, t⟩
    · rw [performAll_cons_error hp]
      rwa [hp] at hk
    · rw [hp] at hk
      rw [performAll_cons_ok hp, ih fun l hl => h l (List.mem_cons_of_mem k hl), hk]

theorem held_perform {k : Call α} (hs : k.primitive ≠ .save) (hr : k.primitive ≠ .restore) :
    Act.Leaves (held view) (perform k : Act (Canvas σ α) _) := by
  intro c
  exact congrArg (Prod.mk c.saved) (hv k hs hr c.surface)

theorem held_lifting {k : Call α} (hs : k.primitive ≠ .save) (hr : k.primitive ≠ .restore) :
    Act.Leaves (held view) (lifting k : Act (Canvas σ α) Unit) :=
  Act.leaves_bind (Act.leaves_bind (held_perform hv hs hr) fun _ => Act.leaves_pure _) fun _ =>
    held_movePen _

theorem held_perform_fill (t : Style) :
    Act.Leaves (held view) (perform (.fill t) : Act (Canvas σ α) _) :=
  held_perform hv (by rintro ⟨⟩) (by rintro ⟨⟩)

theorem held_perform_stroke (t : Style) :
    Act.Leaves (held view) (perform (.stroke t) : Act (Canvas σ α) _) :=
  held_perform hv (by rintro ⟨⟩) (by rintro ⟨⟩)

theorem held_of_performAll {c t : Canvas σ α} {calls : List (Call α)}
    (h : ∀ k ∈ calls, k.primitive.isPath) {w : List Warning} {e : Option Fault}
    (hs : Surface.performAll calls c.surface = (w, e, t.surface)) (hc : t.saved = c.saved) :
    held view t = held view c := by
  have hsaved := hv.performAll (fun k hk => Primitive.not_saving_of_isPath (h k hk)) c.surface
  rw [hs] at hsaved
  rw [held, held, hc, hsaved]

variable [Scalar α]

theorem held_rotate (angle : Argument α) :
    Act.Leaves (held view) (rotate angle : Act (Canvas σ α) Unit) :=
  Act.leaves_bind Act.leaves_get fun _ => Act.leaves_bind (Act.leaves_ofExcept _) fun _ =>
    held_lifting hv (by rintro ⟨⟩) (by rintro ⟨⟩)

theorem held_drawing {stops : Prop} {c t : Canvas σ α} (hd : Drawing stops c t) :
    held view t = held view c := by
  cases hd with
  | drawn hp hs | refused hp hs => exact held_of_performAll hv hp.isPath hs rfl
  | ahead ho hs => exact held_of_performAll hv (List.forall_mem_singleton.mpr rfl) hs rfl
  | stopped h ho hs =>
    refine held_of_performAll hv (fun k hk => ?_) hs rfl
    obtain ⟨z, -, rfl⟩ := List.mem_map.mp hk
    rfl

theorem held_of_moves {β : Type} (stops : Prop) {m : Act (Canvas σ α) β}
    (h : ∀ c, Act.Moves (Drawing stops) m c) : Act.Leaves (held view) m :=
  Act.leaves_of_moves (fun _ _ hd => held_drawing hv hd) h

theorem held_step {op : Op α} (h : op.isSaving = false) (c : Canvas σ α) :
    held view (step op c).2 = held view c := by
  cases op with
  | command k as => exact leaves_quietly (held_of_moves hv _ fun c => moves_command k as c id) c
  | path text => exact leaves_quietly (held_of_moves hv False (moves_path text)) c
  | oval r => exact leaves_quietly (held_of_moves hv False (moves_oval r)) c
  | roundedCorner p1 p2 r =>
    exact leaves_quietly (held_of_moves hv False (moves_roundedCorner p1 p2 r)) c
  | beginPath | translate _ | scale _ | transform _ | setTransform _ =>
    exact leaves_quietly (held_lifting hv (by rintro ⟨⟩) (by rintro ⟨⟩)) c
  | rotate angle => exact leaves_quietly (held_rotate hv angle) c
  | setUnit unit => exact leaves_quietly (leaves_setUnit (fun _ _ => rfl) unit) c
  | set changes => exact leaves_quietly (leaves_setStyle (fun _ _ => rfl) changes) c
  | fill changes => exact leaves_fill (held_perform_fill hv) changes c
  | stroke changes => exact leaves_stroke (held_perform_stroke hv) changes c
  | paint changes =>
    exact leaves_paint (held_perform_fill hv) (held_perform_stroke hv) changes c
  | save | restore | revert | reset => cases h

end Canvas

end Linework
