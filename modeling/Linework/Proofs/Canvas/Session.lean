import Linework.Proofs.Canvas.Styles
import Linework.Proofs.Sheet.Brackets
import Linework.Proofs.Style.Making

/-!
# The style in force

Which style a canvas paints with depends on little of what is asked of it: on the attributes that
are set, on saving and restoring, on resets and on the attributes given with a painting operation.
A session follows these alone. What a recording holds of fills and strokes is what the session of
its operations paints, in the same order and with the same styles.
-/

set_option autoImplicit false

namespace Linework

def Recording.painted {α : Type} (r : Recording α) : List (Call α) :=
  r.calls.filter fun k => k.primitive.paints

/-- The style in force, those that are saved, and what has been painted since the last reset. -/
structure Session (α : Type) where
  style : Style
  saved : List Style
  painted : List (Call α)

namespace Session

variable {α : Type}

def initial : Session α := ⟨.default, [], []⟩

def paint (s : Session α) (changes : Changes) (calls : Style → List (Call α)) : Session α :=
  match s.style.updated changes with
  | .ok t => { s with painted := s.painted ++ calls t }
  | .error _ => s

def after (s : Session α) : Op α → Session α
  | .set changes =>
    match s.style.updated changes with
    | .ok t => { s with style := t }
    | .error _ => s
  | .save => { s with saved := s.style :: s.saved }
  | .restore => { s with style := s.saved.headD s.style, saved := s.saved.tail }
  | .revert => { s with style := s.saved.headD s.style }
  | .fill changes => s.paint changes fun t => [.fill t]
  | .stroke changes => s.paint changes fun t => [.stroke t]
  | .paint changes => s.paint changes fun t => [.fill t, .stroke t]
  | .reset => initial
  | _ => s

variable {s : Session α} {t : Style} {rest : List Style}

theorem after_restore_nil (h : s.saved = []) : s.after .restore = s := by
  obtain ⟨style, saved, painted⟩ := s
  cases h
  rfl

theorem after_restore_cons (h : s.saved = t :: rest) :
    s.after .restore = { s with style := t, saved := rest } := by
  rw [after, h]
  rfl

theorem after_revert_nil (h : s.saved = []) : s.after .revert = s := by
  obtain ⟨style, saved, painted⟩ := s
  cases h
  rfl

theorem after_revert_cons (h : s.saved = t :: rest) : s.after .revert = { s with style := t } := by
  rw [after, h]
  rfl

end Session

namespace Recording

variable {α : Type} {r : Recording α} {calls : List (Call α)}

theorem painted_recordAll (r : Recording α) (calls : List (Call α)) :
    (r.recordAll calls).painted = r.painted ++ calls.filter fun k => k.primitive.paints := by
  rw [painted, painted, calls_recordAll, List.filter_append]

theorem painted_record_of_not_paints {k : Call α} (hk : k.primitive.paints = false) :
    (r.record k).painted = r.painted := by
  have hnone : [k].filter (fun k => k.primitive.paints) = [] :=
    List.filter_cons_of_neg (by simp [hk])
  rw [painted, calls_record, List.filter_append, hnone, List.append_nil]
  rfl

end Recording

namespace Canvas

variable {α : Type}

def session (c : Canvas (Recording α) α) : Session α :=
  ⟨c.style, c.saved.map Snapshot.style, c.surface.painted⟩

/-- The styles of a canvas were all made from settings. -/
def Made (c : Canvas (Recording α) α) : Prop :=
  ∀ t ∈ c.styles, ∃ g : Settings, g.Makes t

theorem Made.updated_nil {c : Canvas (Recording α) α} (h : c.Made) :
    c.style.updated [] = .ok c.style := by
  obtain ⟨g, hg⟩ := h c.style List.mem_cons_self
  exact Style.updated_nil hg

theorem Made.styleFor_eq {c : Canvas (Recording α) α} (h : c.Made) (changes : Changes) :
    c.styleFor changes = c.style.updated changes := by
  rw [styleFor]
  cases changes with
  | nil => exact h.updated_nil.symm
  | cons change rest => rfl

theorem run_performs_recording (calls : List (Call α)) (c : Canvas (Recording α) α) :
    (performs calls).run c = (.ok [], { c with surface := c.surface.recordAll calls }) := by
  induction calls generalizing c with
  | nil => rfl
  | cons k rest ih =>
    have hk : (perform k).run c = (.ok [], { c with surface := c.surface.record k }) := rfl
    rw [performs, Act.run_bind_ok hk, Act.run_bind_ok (ih _), Act.run_pure]
    simp [Recording.recordAll, Recording.record]

theorem session_painting {c : Canvas (Recording α) α} (h : c.Made) (changes : Changes)
    {calls : Style → List (Call α)} (hcalls : ∀ t, ∀ k ∈ calls t, k.primitive.paints) :
    ((painting calls changes).run c).2.session = c.session.paint changes calls := by
  have hstyle : c.session.style = c.style := rfl
  rw [painting, Act.run_bind_ok (Act.run_get c), h.styleFor_eq, Session.paint, hstyle]
  cases c.style.updated changes with
  | error e => rfl
  | ok t =>
    have hall : (calls t).filter (fun k => k.primitive.paints) = calls t :=
      List.filter_eq_self.mpr (hcalls t)
    rw [Act.run_bind_ok (Act.run_ofExcept _ c), run_performs_recording]
    rw [session, Recording.painted_recordAll, hall]
    rfl

theorem session_goingBack {c : Canvas (Recording α) α} {n : Snapshot} {r : Recording α}
    (saved : List Snapshot) (hr : r.painted = c.surface.painted) :
    ({ c.apply n with surface := r, saved := saved } : Canvas (Recording α) α).session =
      { c.session with style := n.style, saved := saved.map Snapshot.style } := by
  rw [session, hr]
  rfl

variable [Scalar α]

theorem made_step (op : Op α) {c : Canvas (Recording α) α} (h : c.Made) :
    (step op c).2.Made := by
  intro t ht
  rcases styles_step op c ht with hheld | rfl | ⟨changes, -, hset⟩
  · exact h t hheld
  · exact ⟨_, Style.default_makes⟩
  · exact ⟨_, Style.makes_of_updated hset⟩

theorem surface_painted_step {op : Op α} (hp : op.paints = false) (hr : op ≠ .reset)
    (c : Canvas (Recording α) α) : (step op c).2.surface.painted = c.surface.painted := by
  refine (asks_act hr).keeps (P := fun r : Recording α => r.painted = c.surface.painted)
    (fun k r hk h => ?_) rfl
  rw [← h]
  exact Recording.painted_record_of_not_paints (Op.not_paints_of_asks hp hk)

theorem session_quiet {op : Op α} (hset : op.isSet = false) (hsave : op.isSaving = false)
    (hp : op.paints = false) (c : Canvas (Recording α) α) :
    (step op c).2.session = c.session := by
  have hr : op ≠ .reset := by
    rintro rfl
    cases hsave
  obtain ⟨hstyle, hsaved⟩ := Prod.mk.inj (settings_step hset hsave c)
  rw [session, hstyle, hsaved, surface_painted_step hp hr]
  rfl

theorem session_step (op : Op α) {c : Canvas (Recording α) α} (h : c.Made) :
    (step op c).2.session = c.session.after op := by
  cases op with
  | set changes =>
    have hstyle : c.session.style = c.style := rfl
    rw [Session.after, hstyle]
    cases hu : c.style.updated changes with
    | error e => rw [step_set_error hu]
    | ok t =>
      rw [step_set_ok hu]
      rfl
  | fill changes =>
    rw [step, act, fill_eq_painting]
    refine session_painting h changes fun t k hk => ?_
    rw [List.mem_singleton.mp hk]
    rfl
  | stroke changes =>
    rw [step, act, stroke_eq_painting]
    refine session_painting h changes fun t k hk => ?_
    rw [List.mem_singleton.mp hk]
    rfl
  | paint changes =>
    rw [step, act, paint_eq_painting]
    refine session_painting h changes fun t k hk => ?_
    rcases List.mem_pair.mp hk with rfl | rfl <;> rfl
  | save =>
    have hpainted : (c.surface.record .save).painted = c.surface.painted :=
      Recording.painted_record_of_not_paints rfl
    exact session_goingBack (n := c.snapshot) (c.snapshot :: c.saved) hpainted
  | restore =>
    have hsaved : c.session.saved = c.saved.map Snapshot.style := rfl
    cases hc : c.saved with
    | nil =>
      rw [hc] at hsaved
      rw [step, act, run_restore_of_nil hc, Session.after_restore_nil hsaved]
    | cons n rest =>
      rw [hc] at hsaved
      rw [recording_restore hc, Session.after_restore_cons hsaved]
      exact session_goingBack rest (Recording.painted_record_of_not_paints rfl)
  | revert =>
    have hsaved : c.session.saved = c.saved.map Snapshot.style := rfl
    cases hc : c.saved with
    | nil =>
      rw [hc] at hsaved
      rw [step, act, run_revert_of_nil hc, Session.after_revert_nil hsaved]
    | cons n rest =>
      have hpainted : ((c.surface.record .restore).record .save).painted = c.surface.painted :=
        (Recording.painted_record_of_not_paints rfl).trans
          (Recording.painted_record_of_not_paints rfl)
      rw [hc] at hsaved
      rw [recording_revert hc, Session.after_revert_cons hsaved]
      exact session_goingBack c.saved hpainted
  | reset => rfl
  | _ => exact session_quiet rfl rfl rfl c

theorem session_run (ops : List (Op α)) {c : Canvas (Recording α) α} (h : c.Made) :
    (run ops c).2.session = ops.foldl Session.after c.session := by
  induction ops generalizing c with
  | nil => rfl
  | cons op rest ih => rw [run_cons, ih (made_step op h), session_step op h, List.foldl_cons]

omit [Scalar α] in
theorem made_fresh (autoOpen : Bool) (unit : AngleUnit) :
    (fresh .empty autoOpen unit : Canvas (Recording α) α).Made := by
  intro t ht
  rw [List.mem_singleton.mp ht]
  exact ⟨_, Style.default_makes⟩

end Canvas

end Linework
