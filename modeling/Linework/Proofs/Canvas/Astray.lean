import Linework.Proofs.Canvas.Trail

/-!
# When the pen goes astray

A walk along an axis that breaks off leaves the pen behind the lines that it has drawn. Until the
path goes on, the current point is not where the trail leads. This is the only way for the pen to
part from the trail, so a run tells by its operations whether it has.
-/

set_option autoImplicit false

namespace Linework

/-- The points of a walk along an axis up to the argument at which it breaks off. -/
def Op.walked {α : Type} [Scalar α] (op : Op α) (z : Point α) : List (Point α) :=
  match op with
  | .command k as =>
    match k.verb with
    | .horizontal => Canvas.walk (Canvas.horizontalStep k.relative) z (Argument.readable as)
    | .vertical => Canvas.walk (Canvas.verticalStep k.relative) z (Argument.readable as)
    | _ => []
  | _ => []

namespace Canvas

section Walks

variable {σ α : Type} [Scalar α] [Surface σ α]

theorem walk_of_breaksOff {op : Op α} (h : op.BreaksOff) :
    ∃ k as x xs e along, op = .command k as ∧ accepts k as.length ∧
      (carryOut k as : Act (Canvas σ α) Unit) = axisLine along as ∧
      Argument.reals as = .error e ∧ Argument.readable as = x :: xs ∧
      ∀ z, op.walked z = walk along z (x :: xs) := by
  cases op with
  | command k as =>
    cases as with
    | nil => exact absurd h id
    | cons a rest =>
      obtain ⟨hv, ⟨x, hx⟩, e, he⟩ := h
      have hacc : accepts k (a :: rest).length := accepts_axis hv (by simp)
      have hr : Argument.reals (a :: rest) = .error e := by
        rw [Argument.reals, hx, he]
        rfl
      have hread := Argument.readable_cons_ok hx rest
      rcases hv with hv | hv
      · refine ⟨k, a :: rest, x, _, e, horizontalStep k.relative, rfl, hacc, ?_, hr, hread, ?_⟩
        · rw [carryOut, hv]
        · intro z
          rw [Op.walked, hv, hread]
      · refine ⟨k, a :: rest, x, _, e, verticalStep k.relative, rfl, hacc, ?_, hr, hread, ?_⟩
        · rw [carryOut, hv]
        · intro z
          rw [Op.walked, hv, hread]
  | _ => exact absurd h id

theorem step_of_breaksOff_of_closed {op : Op α} (h : op.BreaksOff) {c : Canvas σ α}
    (hc : c.pen.current = none) : (step op c).2 = c := by
  obtain ⟨k, as, x, xs, e, along, rfl, hacc, hcarry, -⟩ := walk_of_breaksOff (σ := σ) h
  have hreq : requireCurrent.run c = (.error .noCurrentPoint, c) := by
    rw [run_requireCurrent, Pen.requireCurrent, hc]
  rw [step_command hacc, hcarry, axisLine, Act.run_bind_error hreq]

end Walks

section Broken

variable {α : Type} [Scalar α] {op : Op α} {c : Canvas (Recording α) α}

theorem step_of_breaksOff (h : op.BreaksOff) {z : Point α} (hc : c.pen.current = some z) :
    (step op c).2 =
      { c with surface := c.surface.recordAll ((op.walked z).map .lineTo) } := by
  obtain ⟨k, as, x, xs, e, along, rfl, hacc, hcarry, hreals, hread, hwalked⟩ :=
    walk_of_breaksOff (σ := Recording α) h
  have hreq : requireCurrent.run c = (.ok z, c) := by
    rw [run_requireCurrent, Pen.requireCurrent, hc]
  rw [step_command hacc, hcarry, axisLine, Act.run_bind_ok hreq, drawAlong_of_error along z hreals,
    Act.run_bind_ok (run_drawCalls_ok (Recording.performAll_eq _ c.surface)), hread, hwalked]
  rfl

theorem trail_of_breaksOff (h : op.BreaksOff) {z : Point α} (hc : c.pen.current = some z) :
    ∃ w rest, (op.walked z).getLast? = some w ∧
      (step op c).2.surface.trail = .lineTo w :: rest ++ c.surface.trail := by
  obtain ⟨k, as, x, xs, e, along, -, -, -, -, -, hwalked⟩ :=
    walk_of_breaksOff (σ := Recording α) h
  obtain hw | ⟨init, w, hw⟩ := List.eq_nil_or_concat' (op.walked z)
  · rw [hwalked] at hw
    cases hw
  · refine ⟨w, (init.map .lineTo).reverse, by rw [hw, List.getLast?_concat], ?_⟩
    have hp : ∀ k ∈ (op.walked z).map Call.lineTo, k.primitive.isPath := by
      intro k hk
      obtain ⟨_, -, rfl⟩ := List.mem_map.mp hk
      rfl
    rw [step_of_breaksOff h hc, Recording.trail_path hp, hw]
    simp

end Broken

section Steps

def LeavesBehind (op : Op Float) (c : Canvas (Recording Float) Float) : Prop :=
  op.BreaksOff ∧ ∃ z w, c.pen.current = some z ∧ (op.walked z).getLast? = some w ∧ ¬ w.Same z

def Quiet : List (Op Float) → Canvas (Recording Float) Float → Prop
  | [], _ => True
  | op :: rest, c =>
    (step op c).2.surface.trail = c.surface.trail ∧ Quiet rest (step op c).2

/-- Whether a run leaves the pen behind and then draws nothing more. -/
def Astray (ops : List (Op Float)) (c : Canvas (Recording Float) Float) : Prop :=
  ∃ before op after, ops = before ++ op :: after ∧ LeavesBehind op (run before c).2 ∧
    Quiet after (step op (run before c).2).2

variable {op : Op Float} {c t : Canvas (Recording Float) Float}

theorem not_currentRecorded_of_follows (h : Follows c t) :
    ¬ CurrentRecorded t ↔ ¬ CurrentRecorded c ∧ t.surface.trail = c.surface.trail := by
  rcases h with ⟨htrail, hiff⟩ | ⟨hlt, ht⟩
  · rw [← hiff]
    exact ⟨fun h => ⟨h, htrail⟩, fun h => h.1⟩
  · refine ⟨fun h => absurd ht h, fun h => ?_⟩
    rw [h.2] at hlt
    omega

theorem not_currentRecorded_of_turn (ht : Turn c t) :
    ¬ CurrentRecorded t ↔ ¬ CurrentRecorded c ∧ t.surface.trail = c.surface.trail := by
  have hempty (h : t.surface.trail = []) :
      ¬ CurrentRecorded t ↔ ¬ CurrentRecorded c ∧ t.surface.trail = c.surface.trail := by
    refine ⟨fun hn => absurd (currentRecorded_of_nil h) hn, fun ⟨hn, heq⟩ => ?_⟩
    exact absurd (currentRecorded_of_nil (heq ▸ h)) hn
  cases recorded_of_turn ht with
  | neutral calls hk hs hc hp =>
    have htrail : t.surface.trail = c.surface.trail := by
      rw [hs, Recording.trail_neutral hk]
    rw [CurrentRecorded, CurrentRecorded, htrail, hc, hp]
    simp
  | lifted k hk hs hp => exact hempty (by rw [hs, Recording.trail_lifted hk])
  | cleared unit hs hp => exact hempty (by rw [hs]; rfl)

theorem not_currentRecorded_of_breaksOff (hm : Mirrors c) (h : op.BreaksOff) {z : Point Float}
    (hc : c.pen.current = some z) :
    ¬ CurrentRecorded (step op c).2 ↔ LeavesBehind op c := by
  obtain ⟨w, rest, hw, htrail⟩ := trail_of_breaksOff h hc
  have hstep := step_of_breaksOff h hc
  have hcur : (step op c).2.pen.current = some z := by rw [hstep, hc]
  constructor
  · intro hn
    refine ⟨h, z, w, hc, hw, fun hsame => hn ?_⟩
    exact currentRecorded_of_cons htrail fun s _ _ => ⟨w, z, rfl, hcur, hsame⟩
  · rintro ⟨-, z', w', hc', hw', hsame⟩ hrec
    rw [hc] at hc'
    cases hc'
    rw [hw] at hw'
    cases hw'
    obtain ⟨s, hs⟩ := Option.ne_none_iff_exists'.mp
      (hm.coherent.start_of_open (Pen.isOpen_iff.mpr ⟨z, hc⟩))
    have hstart : (step op c).2.pen.start = some s := by rw [hstep, hs]
    obtain ⟨v, y, hv, hy, hvy⟩ := hrec s (.lineTo w) hstart (by rw [htrail]; rfl) (by rintro ⟨⟩)
    rw [hcur] at hy
    cases hy
    cases hv
    exact hsame hvy

theorem not_currentRecorded_of_whole (hb : ¬ op.BreaksOff) :
    ¬ CurrentRecorded (step op c).2 ↔
      ¬ CurrentRecorded c ∧ (step op c).2.surface.trail = c.surface.trail := by
  rcases step_draws_or_turns op c with h | h
  · apply not_currentRecorded_of_follows
    generalize (step op c).2 = t at h ⊢
    induction h with
    | refl => exact .refl c
    | tail _ hd ih => exact ih.trans (follows_drawing hb hd)
  · exact not_currentRecorded_of_turn h

theorem not_currentRecorded_step (hm : Mirrors c) :
    ¬ CurrentRecorded (step op c).2 ↔
      (¬ CurrentRecorded c ∧ (step op c).2.surface.trail = c.surface.trail) ∨
        LeavesBehind op c := by
  by_cases hb : op.BreaksOff
  · cases hc : c.pen.current with
    | none =>
      have hl : ¬ LeavesBehind op c := by
        rintro ⟨-, z, w, hz, -⟩
        rw [hc] at hz
        cases hz
      rw [step_of_breaksOff_of_closed hb hc]
      simp [hl]
    | some z =>
      obtain ⟨w, rest, -, htrail⟩ := trail_of_breaksOff hb hc
      have hne : (step op c).2.surface.trail ≠ c.surface.trail := by
        intro heq
        have hlen := congrArg List.length (htrail.symm.trans heq)
        rw [List.length_append, List.length_cons] at hlen
        omega
      rw [not_currentRecorded_of_breaksOff hm hb hc]
      simp [hne]
  · have hl : ¬ LeavesBehind op c := fun h => hb h.1
    rw [not_currentRecorded_of_whole hb]
    simp [hl]

theorem astray_cons (op : Op Float) (rest : List (Op Float)) (c : Canvas (Recording Float) Float) :
    Astray (op :: rest) c ↔
      (LeavesBehind op c ∧ Quiet rest (step op c).2) ∨ Astray rest (step op c).2 := by
  constructor
  · rintro ⟨before, o, after, heq, hl, hq⟩
    cases before with
    | nil =>
      cases heq
      exact .inl ⟨hl, hq⟩
    | cons b before =>
      cases heq
      exact .inr ⟨before, o, after, rfl, hl, hq⟩
  · rintro (⟨hl, hq⟩ | ⟨before, o, after, rfl, hl, hq⟩)
    · exact ⟨[], op, rest, rfl, hl, hq⟩
    · exact ⟨op :: before, o, after, rfl, hl, hq⟩

theorem not_currentRecorded_run (ops : List (Op Float)) (hm : Mirrors c) :
    ¬ CurrentRecorded (run ops c).2 ↔ (¬ CurrentRecorded c ∧ Quiet ops c) ∨ Astray ops c := by
  induction ops generalizing c with
  | nil =>
    have ha : ¬ Astray [] c := by
      rintro ⟨before, op, after, heq, -⟩
      simp at heq
    simp [run, Quiet, ha]
  | cons op rest ih =>
    rw [run_cons, ih (mirrors_step op c hm), not_currentRecorded_step hm, astray_cons, Quiet]
    tauto

/-- After every run on an empty recording the pen's start is that of the latest move of the trail,
and without a start there is no current point. The current point is where the trail leads unless
the run has left the pen behind and drawn nothing since. -/
theorem recorded_run (autoOpen : Bool) (unit : AngleUnit) (ops : List (Op Float)) :
    StartRecorded (run ops (fresh .empty autoOpen unit)).2 ∧
      ((run ops (fresh Recording.empty autoOpen unit)).2.pen.start = none →
        (run ops (fresh Recording.empty autoOpen unit)).2.pen.current = none) ∧
      (CurrentRecorded (run ops (fresh .empty autoOpen unit)).2 ↔
        ¬ Astray ops (fresh .empty autoOpen unit)) := by
  have hm := run_keeps mirrors_step ops (mirrors_fresh autoOpen unit)
  refine ⟨hm.start, hm.coherent.current_iff.mpr, ?_⟩
  have hc : CurrentRecorded (fresh .empty autoOpen unit : Canvas (Recording Float) Float) :=
    currentRecorded_of_nil rfl
  rw [← not_iff_not, not_not, not_currentRecorded_run ops (mirrors_fresh autoOpen unit)]
  simp [hc]

theorem not_currentRecorded_after_missing :
    ¬ CurrentRecorded (run
      [.command ⟨.move, false⟩ (Argument.ofNumbers [0, 0]),
        .command ⟨.horizontal, false⟩ [.number 5, .absent]]
      (fresh .empty true .radians : Canvas (Recording Float) Float)).2 := by
  intro h
  obtain ⟨w, z, hw, hz, hwz⟩ := h ⟨0, 0⟩ (.lineTo ⟨5, 0⟩) rfl rfl (by rintro ⟨⟩)
  cases hw
  cases hz
  -- the first line has been drawn, and the pen is where it was
  rcases hwz with hwz | hwz
  · exact absurd hwz (by decide)
  · exact absurd hwz (by decide)

end Steps

end Canvas

end Linework
