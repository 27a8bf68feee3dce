import Linework.Proofs.Canvas.Asked
import Linework.Proofs.Canvas.Watched

/-!
# The styles of a canvas

A canvas holds the style in force and those that were saved with its snapshots. One operation makes
styles; the others move the styles that there are between the canvas and its snapshots or leave
them alone, and a reset brings back the default one. This is so on every surface, whatever it
refuses.
-/

set_option autoImplicit false

namespace Linework

def Primitive.paints : Primitive → Bool
  | fill | stroke => true
  | _ => false

def Op.paints {α : Type} : Op α → Bool
  | .fill _ | .stroke _ | .paint _ => true
  | _ => false

theorem Op.not_paints_of_asks {α : Type} {op : Op α} (hop : op.paints = false) {p : Primitive}
    (h : op.asks p) : p.paints = false := by
  cases op with
  | command k as =>
    rw [asks] at h
    split at h
    · rw [beq_iff_eq.mp h]
      rfl
    · cases p <;> first | rfl | cases h
  | fill _ | stroke _ | paint _ => cases hop
  | _ => cases p <;> first | rfl | cases h

def Op.isSet {α : Type} : Op α → Bool
  | .set _ => true
  | _ => false

namespace Canvas

variable {σ α : Type}

def settings (c : Canvas σ α) : Style × List Snapshot := (c.style, c.saved)

def styles (c : Canvas σ α) : List Style := c.style :: c.saved.map Snapshot.style

theorem styles_of_settings {c d : Canvas σ α} (h : d.settings = c.settings) :
    d.styles = c.styles := by
  obtain ⟨hstyle, hsaved⟩ := Prod.mk.inj h
  rw [styles, styles, hstyle, hsaved]

variable [Surface σ α]

theorem settings_perform (k : Call α) :
    Act.Leaves settings (perform k : Act (Canvas σ α) (List Warning)) := fun _ => rfl

theorem settings_draw (k : Call α) : Act.Leaves settings (draw k : Act (Canvas σ α) Unit) :=
  Act.leaves_bind (settings_perform k) fun _ => Act.leaves_pure _

theorem settings_lifting (k : Call α) :
    Act.Leaves settings (lifting k : Act (Canvas σ α) Unit) :=
  Act.leaves_bind (settings_draw k) fun _ => Act.leaves_modify fun _ => rfl

/-- Makes the calls of a style, which is the one in force, with some attributes replaced. -/
def painting (calls : Style → List (Call α)) (changes : Changes) :
    Act (Canvas σ α) (List Warning) := do
  let t ← Act.ofExcept ((← get).styleFor changes)
  performs (calls t)

theorem fill_eq_painting (changes : Changes) :
    (fill changes : Act (Canvas σ α) _) = painting (fun t => [.fill t]) changes := by
  simp [fill, painting, performs]

theorem stroke_eq_painting (changes : Changes) :
    (stroke changes : Act (Canvas σ α) _) = painting (fun t => [.stroke t]) changes := by
  simp [stroke, painting, performs]

theorem paint_eq_painting (changes : Changes) :
    (paint changes : Act (Canvas σ α) _) = painting (fun t => [.fill t, .stroke t]) changes := by
  simp [paint, painting, performs]

section Turns

variable {c : Canvas σ α}

/-- A change of styles that comes after some calls is not made if one of them is refused. -/
theorem styles_bind_drawCalls {β : Type} {calls : List (Call α)} {m : Act (Canvas σ α) β}
    (hm : ∀ s, (m.run { c with surface := s }).2.styles ⊆ c.styles) :
    ((drawCalls calls >>= fun _ => m).run c).2.styles ⊆ c.styles := by
  rcases hs : Surface.performAll calls c.surface with ⟨w, e | e, s⟩
  · rw [Act.run_bind_ok (run_drawCalls_ok hs)]
    exact hm s
  · rw [Act.run_bind_error (run_drawCalls_error hs)]
    exact List.Subset.refl _

theorem styles_save : (save.run c).2.styles ⊆ c.styles := by
  rw [save, ← drawCalls_singleton]
  exact styles_bind_drawCalls fun s =>
    List.cons_subset.mpr ⟨List.mem_cons_self, List.Subset.refl c.styles⟩

theorem styles_restore : (restore.run c).2.styles ⊆ c.styles := by
  cases hc : c.saved with
  | nil =>
    rw [run_restore_of_nil hc]
    exact List.Subset.refl _
  | cons n rest =>
    have hback : n.style :: rest.map Snapshot.style ⊆ c.styles := by
      rw [styles, hc]
      exact List.subset_cons_self _ _
    rw [restore, Act.run_bind_ok (Act.run_get c), hc]
    simp only [← drawCalls_singleton]
    exact styles_bind_drawCalls fun s => hback

theorem styles_revert : (revert.run c).2.styles ⊆ c.styles := by
  cases hc : c.saved with
  | nil =>
    rw [run_revert_of_nil hc]
    exact List.Subset.refl _
  | cons n rest =>
    have hn : n.style ∈ c.saved.map Snapshot.style := by
      rw [hc]
      exact List.mem_cons_self
    rw [revert, Act.run_bind_ok (Act.run_get c), hc]
    simp only [← bind_drawCalls_pair]
    exact styles_bind_drawCalls fun s =>
      List.cons_subset.mpr ⟨List.mem_cons_of_mem _ hn, List.subset_cons_self _ _⟩

end Turns

section Steps

variable [Scalar α]

theorem settings_drawing {stops : Prop} {c t : Canvas σ α} (h : Drawing stops c t) :
    t.settings = c.settings := by
  cases h <;> rfl

theorem settings_of_moves {β : Type} (stops : Prop) {m : Act (Canvas σ α) β}
    (h : ∀ c, Act.Moves (Drawing stops) m c) : Act.Leaves settings m :=
  Act.leaves_of_moves (fun _ _ hd => settings_drawing hd) h

theorem settings_step {op : Op α} (hset : op.isSet = false) (hsave : op.isSaving = false)
    (c : Canvas σ α) : (step op c).2.settings = c.settings := by
  cases op with
  | command k as => exact leaves_quietly (settings_of_moves _ fun c => moves_command k as c id) c
  | path text => exact leaves_quietly (settings_of_moves False (moves_path text)) c
  | oval r => exact leaves_quietly (settings_of_moves False (moves_oval r)) c
  | roundedCorner p1 p2 r =>
    exact leaves_quietly (settings_of_moves False (moves_roundedCorner p1 p2 r)) c
  | beginPath | translate _ | scale _ | transform _ | setTransform _ =>
    exact leaves_quietly (settings_lifting _) c
  | rotate angle =>
    exact leaves_quietly (Act.leaves_bind Act.leaves_get fun _ =>
      Act.leaves_bind (Act.leaves_ofExcept _) fun _ => settings_lifting _) c
  | setUnit unit => exact leaves_quietly (leaves_setUnit (fun _ _ => rfl) unit) c
  | fill changes => exact leaves_fill (fun _ => settings_perform _) changes c
  | stroke changes => exact leaves_stroke (fun _ => settings_perform _) changes c
  | paint changes =>
    exact leaves_paint (fun _ => settings_perform _) (fun _ => settings_perform _) changes c
  | set _ => cases hset
  | save | restore | revert | reset => cases hsave

theorem step_set_ok {changes : Changes} {c : Canvas σ α} {t : Style}
    (h : c.style.updated changes = .ok t) :
    step (.set changes) c = (.ok [], { c with style := t }) := by
  change (quietly (setStyle changes)).run c = _
  rw [run_quietly, setStyle, Act.run_bind_ok (Act.run_get c), h]
  rfl

theorem step_set_error {changes : Changes} {c : Canvas σ α} {e : Fault}
    (h : c.style.updated changes = .error e) : step (.set changes) c = (.error e, c) := by
  change (quietly (setStyle changes)).run c = _
  rw [run_quietly, setStyle, Act.run_bind_ok (Act.run_get c), h]
  rfl

/-- A style that is held after an operation was held before, is the default one, or is what the
operation has set. -/
theorem styles_step (op : Op α) (c : Canvas σ α) {t : Style} (ht : t ∈ (step op c).2.styles) :
    t ∈ c.styles ∨ t = .default ∨
      ∃ changes, op = .set changes ∧ c.style.updated changes = .ok t := by
  cases hset : op.isSet with
  | true =>
    cases op with
    | set changes =>
      cases hu : c.style.updated changes with
      | error e =>
        rw [step_set_error hu] at ht
        exact .inl ht
      | ok u =>
        rw [step_set_ok hu] at ht
        rcases List.mem_cons.mp ht with rfl | hsaved
        · exact .inr (.inr ⟨changes, rfl, hu⟩)
        · exact .inl (List.mem_cons_of_mem _ hsaved)
    | _ => cases hset
  | false =>
    cases hsave : op.isSaving with
    | false =>
      rw [styles_of_settings (settings_step hset hsave c)] at ht
      exact .inl ht
    | true =>
      cases op with
      | save =>
        rw [step, act, run_quietly_state] at ht
        exact .inl (styles_save ht)
      | restore => exact .inl (styles_restore ht)
      | revert => exact .inl (styles_revert ht)
      | reset =>
        rcases hs : (Surface.clear : Act σ Unit).run c.surface with ⟨e | u, s⟩
        · rw [step_reset_error hs] at ht
          exact .inl ht
        · rw [step_reset_ok hs] at ht
          exact .inr (.inl (List.mem_singleton.mp ht))
      | _ => cases hsave

end Steps

end Canvas

end Linework
