import Linework.Proofs.Canvas.Astray
import Linework.Proofs.Canvas.Bends
import Linework.Proofs.Canvas.Elements

/-!
# Smooth curves

As long as nothing fails, a control point of the pen is that of the curve that was recorded last.
So a smooth curve reflects the control point of the path primitive right before it, be that from an
earlier command or from an earlier group of its own.
-/

set_option autoImplicit false

namespace Linework

open Outline (Command Verb)

def Curve.smoothVerb : Curve → Verb
  | cubic => .smoothCubic
  | quadratic => .smoothQuadratic

namespace Call

variable {α : Type}

/-- A call for a curve, by its first and its last control point and its end. A quadratic curve has
one control point. -/
def IsCurve (curve : Curve) (first last finish : Point α) (k : Call α) : Prop :=
  match curve with
  | .cubic => k = .cubicTo first last finish
  | .quadratic => first = last ∧ k = .quadraticTo last finish

def latestPath? (calls : List (Call α)) : Option (Call α) :=
  (calls.filter fun k => k.primitive.isPath).getLast?

theorem IsCurve.isPath {curve : Curve} {first last finish : Point α} {k : Call α}
    (h : k.IsCurve curve first last finish) : k.primitive.isPath := by
  cases curve with
  | cubic =>
    rw [show k = _ from h]
    rfl
  | quadratic =>
    rw [h.2]
    rfl

theorem latestPath?_append {calls more : List (Call α)}
    (h : ∀ k ∈ more, k.primitive.isPath) :
    latestPath? (calls ++ more) = (more.getLast?).or (latestPath? calls) := by
  rw [latestPath?, List.filter_append, List.filter_eq_self.mpr h, List.getLast?_append,
    latestPath?]

/-- Curves of which each reflects the one before, the first one a curve with the given control
point and end. -/
inductive Reflects [Scalar α] (curve : Curve) : Point α → Point α → List (Call α) → Prop
  | nil (control finish : Point α) : Reflects curve control finish []
  | cons {control finish last z : Point α} {k : Call α} {rest : List (Call α)}
      (hk : k.IsCurve curve (Point.reflectIn finish control) last z)
      (hrest : Reflects curve last z rest) : Reflects curve control finish (k :: rest)

namespace Reflects

variable [Scalar α] {curve : Curve} {control finish : Point α} {calls : List (Call α)}

theorem isPath (h : Reflects curve control finish calls) : ∀ k ∈ calls, k.primitive.isPath := by
  induction h with
  | nil => simp
  | cons hk _ ih => exact List.forall_mem_cons.mpr ⟨hk.isPath, ih⟩

theorem split (h : Reflects curve control finish calls) {first : Point α} {l : Call α}
    (hl : l.IsCurve curve first control finish) {before after : List (Call α)} {k : Call α}
    (hs : calls = before ++ k :: after) :
    ∃ m a b e b' e', (l :: before).getLast? = some m ∧ m.IsCurve curve a b e ∧
      k.IsCurve curve (Point.reflectIn e b) b' e' := by
  induction h generalizing before first l with
  | nil => simp at hs
  | @cons control finish last z j rest hk hrest ih =>
    cases before with
    | nil =>
      rw [List.nil_append, List.cons.injEq] at hs
      exact ⟨l, first, control, finish, last, z, rfl, hl, hs.1 ▸ hk⟩
    | cons i before =>
      rw [List.cons_append, List.cons.injEq] at hs
      obtain ⟨rfl, hs⟩ := hs
      rw [List.getLast?_cons_cons]
      exact ih hk hs

theorem split_recorded (h : Reflects curve control finish calls) {first : Point α} {l : Call α}
    (hl : l.IsCurve curve first control finish) {before after : List (Call α)} {k : Call α}
    (hs : calls = before ++ k :: after) {earlier : List (Call α)}
    (hlatest : latestPath? earlier = some l) :
    ∃ m a b e b' e', latestPath? (earlier ++ before) = some m ∧ m.IsCurve curve a b e ∧
      k.IsCurve curve (Point.reflectIn e b) b' e' := by
  obtain ⟨m, a, b, e, b', e', hm, hcurve, hk⟩ := h.split hl hs
  refine ⟨m, a, b, e, b', e', ?_, hcurve, hk⟩
  have hbefore : ∀ i ∈ before, i.primitive.isPath := fun i hi =>
    h.isPath i (hs ▸ List.mem_append_left _ hi)
  rw [latestPath?_append hbefore, hlatest, ← hm, List.getLast?_cons]
  cases before.getLast? <;> rfl

theorem of_smoothCubics (relative : Bool) (current control : Point α)
    (qs : List (QuadraticTo α)) :
    Reflects .cubic control current
      ((smoothCubics relative current control qs).map CubicTo.call) := by
  induction qs generalizing current control with
  | nil => exact .nil _ _
  | cons q rest ih => exact .cons rfl (ih _ _)

theorem of_smoothQuadratics (relative : Bool) (current control : Point α)
    (zs : List (Point α)) :
    Reflects .quadratic control current
      ((smoothQuadratics relative current control zs).map QuadraticTo.call) := by
  induction zs generalizing current control with
  | nil => exact .nil _ _
  | cons z rest ih => exact .cons ⟨rfl, rfl⟩ (ih _ _)

end Reflects

end Call

theorem Recording.latestPath_of_trail {α : Type} {r : Recording α} {k : Call α}
    (h : r.trail.head? = some k) : Call.latestPath? r.calls = some k := by
  have hprefix : r.trail <+: r.backwards.filter fun k => k.primitive.isPath :=
    (List.takeWhile_prefix _).filter _
  obtain ⟨rest, hrest⟩ := hprefix
  rw [Call.latestPath?, calls, List.filter_reverse, List.getLast?_reverse, ← hrest,
    List.head?_append, h, Option.some_or]

section Strokes

variable {α : Type} [Scalar α] {p q : Pen α} {calls : List (Call α)}

theorem Pen.Draws.control (h : p.Draws calls q) {curve : Curve} {b : Point α}
    (hb : q.control curve = some b) :
    ∃ init k a e, calls = init ++ [k] ∧ k.IsCurve curve a b e ∧ q.current = some e := by
  have hnone {r : Pen α} (hr : r.Bends none) (hc : r.control curve = some b) : False := by
    have hcurve := (hr curve).mp (by simp [hc])
    cases hcurve
  cases h with
  | start z => exact (hnone (p.bends_openAt z) hb).elim
  | lines _ zs z => exact (hnone (p.bends_moveTo z) hb).elim
  | arc _ request _ => exact (hnone (p.bends_moveTo _) hb).elim
  | omitted _ finish _ => exact (hnone (p.bends_moveTo _) hb).elim
  | oval _ _ _ _ _ _ _ => exact (hnone (p.bends_moveTo _) hb).elim
  | corner _ _ _ _ _ _ => exact (hnone (p.bends_moveTo _) hb).elim
  | close => exact (hnone p.bends_close hb).elim
  | cubics _ cs c =>
    have hcurve := (p.bends_curveTo .cubic c.second c.finish curve).mp (by simp [hb])
    cases hcurve
    cases hb
    exact ⟨cs.map CubicTo.call, c.call, c.first, c.finish, by simp, rfl, by simp⟩
  | quadratics _ qs q =>
    have hcurve := (p.bends_curveTo .quadratic q.control q.finish curve).mp (by simp [hb])
    cases hcurve
    cases hb
    exact ⟨qs.map QuadraticTo.call, q.call, q.control, q.finish, by simp, ⟨rfl, rfl⟩, by simp⟩

end Strokes

namespace Canvas

section Recorded

variable {α : Type} {c t : Canvas (Recording α) α}

/-- A control point of the pen is that of the latest primitive of the trail, which leads to the
current point. -/
def ControlRecorded (c : Canvas (Recording α) α) : Prop :=
  ∀ curve b, c.pen.control curve = some b → ∃ a e k, c.pen.current = some e ∧
    c.surface.trail.head? = some k ∧ k.IsCurve curve a b e

theorem controlRecorded_of_bends (h : t.Bends none) : ControlRecorded t := by
  intro curve b hb
  have hcurve := (h curve).mp (by simp [hb])
  cases hcurve

theorem controls_of_turn (ht : Turn c t) : t.controls = c.controls ∨ t.Bends none := by
  cases ht with
  | idle | style _ | saved _ | painted _ _ | refused _ _ | resetRefused _ => exact .inl rfl
  | unit u | restored _ _ | reverted _ _ =>
    refine .inl (funext fun curve => ?_)
    cases curve <;> rfl
  | lifted _ _ | reset _ => exact .inr (Pen.bends_fresh _)

theorem controlRecorded_turn (ht : Turn c t) (h : ControlRecorded c) : ControlRecorded t := by
  rcases controls_of_turn ht with hcontrols | hbends
  · cases recorded_of_turn ht with
    | neutral calls hk hs hcurrent hp =>
      intro curve b hb
      have hcontrol : c.pen.control curve = some b := (congrFun hcontrols curve).symm.trans hb
      obtain ⟨a, e, k, he, hhead, hcurve⟩ := h curve b hcontrol
      refine ⟨a, e, k, hcurrent.trans he, ?_, hcurve⟩
      rw [hs, Recording.trail_neutral hk, hhead]
    | lifted k hk hs hp =>
      apply controlRecorded_of_bends
      rw [Bends, hp]
      exact Pen.bends_fresh _
    | cleared unit hs hp =>
      apply controlRecorded_of_bends
      rw [Bends, hp]
      exact Pen.bends_fresh _
  · exact controlRecorded_of_bends hbends

variable [Scalar α]

theorem controlRecorded_drawing {stops : Prop} (hn : ¬ stops) (hd : Drawing stops c t) :
    ControlRecorded t := by
  obtain ⟨calls, q, hp, hs, hpen⟩ := recorded_of_drawing hd
  have hq : t.pen = q := hpen.resolve_right fun h => hn h.1
  intro curve b hb
  rw [hq] at hb
  obtain ⟨init, k, a, e, rfl, hk, he⟩ := hp.control hb
  refine ⟨a, e, k, by rw [hq, he], ?_, hk⟩
  rw [hs, Recording.trail_path hp.isPath, List.reverse_concat, List.cons_append, List.head?_cons]

theorem not_breaksOff_of_ok {op : Op α} {w : List Warning}
    (h : step op c = (.ok w, t)) : ¬ op.BreaksOff := by
  intro hb
  obtain ⟨k, as, x, xs, e, along, rfl, hacc, hcarry, hreals, -⟩ :=
    walk_of_breaksOff (σ := Recording α) hb
  have hfails : Act.Ensures (fun _ => True) (fun _ => False)
      (act (.command k as) : Act (Canvas (Recording α) α) _) := by
    refine Act.ensures_bind (q := fun _ => False) ?_ fun _ => Act.ensures_pure _
    rw [command, if_pos hacc, hcarry]
    refine Act.ensures_bind (Act.ensures_true _) fun z => ?_
    rw [drawAlong_of_error along z hreals]
    exact Act.ensures_bind (Act.ensures_true _) fun _ => Act.ensures_throw e
  exact hfails c w t trivial h

theorem controlRecorded_step {op : Op α} {w : List Warning} (h : ControlRecorded c)
    (hok : step op c = (.ok w, t)) : ControlRecorded t := by
  have hn := not_breaksOff_of_ok hok
  have hstep := step_draws_or_turns op c
  rw [hok] at hstep
  rcases hstep with hd | ht
  · dsimp only at hd
    induction hd with
    | refl => exact h
    | tail _ hd _ => exact controlRecorded_drawing hn hd
  · exact controlRecorded_turn ht h

theorem controlRecorded_run {ops : List (Op α)} (hc : ControlRecorded c) (h : Succeeds ops c) :
    ControlRecorded (run ops c).2 := by
  induction ops generalizing c with
  | nil => exact hc
  | cons op rest ih =>
    obtain ⟨⟨w, hstep⟩, hrest⟩ := succeeds_cons h
    exact ih (controlRecorded_step hc hstep) hrest

end Recorded

section Smooth

variable {σ α : Type} {curve : Curve} {relative : Bool} {as : List (Argument α)}

variable [Surface σ α]

theorem drawCubics_of_ne_nil {cs : List (CubicTo α)} (h : cs ≠ []) :
    ∃ f, (drawCubics cs : Act (Canvas σ α) Unit) = drawThen (cs.map CubicTo.call) f := by
  obtain rfl | ⟨init, c, rfl⟩ := List.eq_nil_or_concat' cs
  · exact absurd rfl h
  · exact ⟨_, drawCubics_concat init c⟩

theorem drawQuadratics_of_ne_nil {qs : List (QuadraticTo α)} (h : qs ≠ []) :
    ∃ f, (drawQuadratics qs : Act (Canvas σ α) Unit) = drawThen (qs.map QuadraticTo.call) f := by
  obtain rfl | ⟨init, q, rfl⟩ := List.eq_nil_or_concat' qs
  · exact absurd rfl h
  · exact ⟨_, drawQuadratics_concat init q⟩

variable [Scalar α]

def drawSmooth (curve : Curve) (relative : Bool) (control current : Point α)
    (zs : List (Point α)) : Act (Canvas σ α) Unit :=
  match curve with
  | .cubic => drawCubics (smoothCubics relative current control (QuadraticTo.group zs))
  | .quadratic => drawQuadratics (smoothQuadratics relative current control zs)

theorem command_smooth (ha : accepts ⟨curve.smoothVerb, relative⟩ as.length) :
    (command ⟨curve.smoothVerb, relative⟩ as : Act (Canvas σ α) Unit) =
      (requireControl curve >>= fun control => requireCurrent >>= fun current =>
        points as >>= drawSmooth curve relative control current) := by
  rw [command, if_pos ha]
  cases curve <;> rfl

theorem drawSmooth_eq (ha : accepts ⟨curve.smoothVerb, relative⟩ as.length)
    (control current : Point α) {zs : List (Point α)} (hz : zs.length = as.length / 2) :
    ∃ calls f, calls.length * curve.smoothVerb.groupSize = as.length ∧
      Call.Reflects curve control current calls ∧
      (drawSmooth curve relative control current zs : Act (Canvas σ α) Unit) =
        drawThen calls f := by
  have hle := groupSize_le_of_accepts ha
  have hmod := groups_of_accepts (by cases curve <;> decide) ha
  cases curve with
  | cubic =>
    change 4 ≤ as.length at hle
    change as.length % 4 = 0 at hmod
    have hlen := length_smoothCubics relative current control (QuadraticTo.group zs)
    rw [QuadraticTo.length_group] at hlen
    have hne : smoothCubics relative current control (QuadraticTo.group zs) ≠ [] :=
      List.ne_nil_of_length_pos (by omega)
    obtain ⟨f, hf⟩ := drawCubics_of_ne_nil (σ := σ) hne
    refine ⟨_, f, ?_, .of_smoothCubics relative current control (QuadraticTo.group zs), hf⟩
    change (List.map _ _).length * 4 = _
    rw [List.length_map]
    omega
  | quadratic =>
    change 2 ≤ as.length at hle
    change as.length % 2 = 0 at hmod
    have hlen := length_smoothQuadratics relative current control zs
    have hne : smoothQuadratics relative current control zs ≠ [] :=
      List.ne_nil_of_length_pos (by omega)
    obtain ⟨f, hf⟩ := drawQuadratics_of_ne_nil (σ := σ) hne
    refine ⟨_, f, ?_, .of_smoothQuadratics relative current control zs, hf⟩
    change (List.map _ _).length * 2 = _
    rw [List.length_map]
    omega

theorem step_smooth_of_none {c : Canvas σ α}
    (ha : accepts ⟨curve.smoothVerb, relative⟩ as.length) (hb : c.pen.control curve = none) :
    step (.command ⟨curve.smoothVerb, relative⟩ as) c = (.error (.noSmoothContext curve), c) := by
  change (quietly (command ⟨curve.smoothVerb, relative⟩ as)).run c = _
  rw [run_quietly, command_smooth ha, Act.run_bind_error (run_requireControl_of_none hb)]

theorem step_smooth_of_some {c : Canvas σ α} {b e : Point α}
    (ha : accepts ⟨curve.smoothVerb, relative⟩ as.length) (hb : c.pen.control curve = some b)
    (he : c.pen.current = some e) :
    step (.command ⟨curve.smoothVerb, relative⟩ as) c =
      (quietly (points as >>= drawSmooth curve relative b e)).run c := by
  change (quietly (command ⟨curve.smoothVerb, relative⟩ as)).run c = _
  rw [run_quietly, run_quietly, command_smooth ha, Act.run_bind_ok (run_requireControl_of_some hb),
    Act.run_bind_ok (run_requireCurrent_of_some he)]

end Smooth

section Runs

variable {α : Type} [Scalar α]

theorem step_smooth_recording {curve : Curve} {relative : Bool} {as : List (Argument α)}
    {c : Canvas (Recording α) α} {b e : Point α} {xs : List α}
    (ha : accepts ⟨curve.smoothVerb, relative⟩ as.length) (hb : c.pen.control curve = some b)
    (he : c.pen.current = some e) (hx : Argument.reals as = .ok xs) :
    ∃ (calls : List (Call α)) (f : Pen α → Pen α),
      calls.length * curve.smoothVerb.groupSize = as.length ∧
      Call.Reflects curve b e calls ∧ step (.command ⟨curve.smoothVerb, relative⟩ as) c =
        (.ok [], { c with surface := c.surface.recordAll calls, pen := f c.pen }) := by
  have hlen : (Point.pairs xs).length = as.length / 2 := by
    rw [Point.length_pairs, Argument.length_reals hx]
  obtain ⟨calls, f, hcount, href, hdraw⟩ := drawSmooth_eq (σ := Recording α) ha b e hlen
  refine ⟨calls, f, hcount, href, ?_⟩
  rw [step_smooth_of_some ha hb he, run_quietly, points_of_reals hx, pure_bind, hdraw,
    run_drawThen_recording]

/-- After a run in which nothing fails, a smooth command has a curve to follow exactly if the
latest operation that settles it has left one. Without one it fails and records nothing; with one
it records a curve for each of its groups, and each of them reflects the control point of the path
primitive right before it in the end of this. -/
theorem smooth_run (autoOpen : Bool) (unit : AngleUnit) {ops : List (Op α)}
    (h : Succeeds ops (fresh .empty autoOpen unit : Canvas (Recording α) α)) (curve : Curve)
    (relative : Bool) {as : List (Argument α)}
    (ha : accepts ⟨curve.smoothVerb, relative⟩ as.length) :
    let c : Canvas (Recording α) α := (run ops (fresh .empty autoOpen unit)).2
    let smooth : Op α := .command ⟨curve.smoothVerb, relative⟩ as
    let latest := (ops.filterMap Op.bend?).getLast?
    (latest ≠ some (some curve) → step smooth c = (.error (.noSmoothContext curve), c)) ∧
    (latest = some (some curve) →
      (∀ e, Argument.reals as = .error e → step smooth c = (.error e, c)) ∧
      ∀ xs, Argument.reals as = .ok xs → ∃ calls, (step smooth c).1 = .ok [] ∧
        (step smooth c).2.surface.calls = c.surface.calls ++ calls ∧
        calls.length * curve.smoothVerb.groupSize = as.length ∧
        ∀ before k after, calls = before ++ k :: after → ∃ l a b e b' e',
          Call.latestPath? (c.surface.calls ++ before) = some l ∧ l.IsCurve curve a b e ∧
            k.IsCurve curve (Point.reflectIn e b) b' e') := by
  intro c smooth latest
  have hbends : c.Bends (latest.getD none) := bends_run (Pen.bends_fresh unit) h
  have hcontrol : ControlRecorded c :=
    controlRecorded_run (controlRecorded_of_bends (Pen.bends_fresh unit)) h
  have hlatest : latest.getD none = some curve ↔ latest = some (some curve) := by
    cases latest <;> simp
  refine ⟨fun hne => step_smooth_of_none ha ?_, fun heq => ?_⟩
  · by_contra hsome
    exact hne (hlatest.mp ((hbends curve).mp hsome))
  · obtain ⟨b, hb⟩ := Option.ne_none_iff_exists'.mp ((hbends curve).mpr (hlatest.mpr heq))
    obtain ⟨a, e, l, he, hhead, hl⟩ := hcontrol curve b hb
    refine ⟨fun fault hx => ?_, fun xs hx => ?_⟩
    · rw [step_smooth_of_some ha hb he, run_quietly, points, hx]
      rfl
    · obtain ⟨calls, f, hcount, href, hstep⟩ := step_smooth_recording ha hb he hx
      rw [hstep]
      refine ⟨calls, rfl, Recording.calls_recordAll _ _, hcount, fun before k after hs => ?_⟩
      exact href.split_recorded hl hs (Recording.latestPath_of_trail hhead)

theorem smooth_run_two_groups :
    let ops : List (Op Float) := [.command ⟨.move, false⟩ (Argument.ofNumbers [0, 0]),
      .command ⟨.cubic, false⟩ (Argument.ofNumbers [1, 2, 3, 4, 5, 6]), .save, .fill []]
    let c : Canvas (Recording Float) Float := (run ops (fresh .empty false .radians)).2
    Succeeds ops (fresh .empty false .radians : Canvas (Recording Float) Float) ∧
      accepts ⟨Curve.cubic.smoothVerb, true⟩
        (Argument.ofNumbers [1, 2, 3, 4, 5, 6, 7, (8 : Float)]).length ∧
      ∃ calls, (step (.command ⟨Curve.cubic.smoothVerb, true⟩
          (Argument.ofNumbers [1, 2, 3, 4, 5, 6, 7, (8 : Float)])) c).2.surface.calls =
        c.surface.calls ++ calls ∧ calls.length * 4 = 8 := by
  dsimp only
  have hacc : accepts ⟨Curve.cubic.smoothVerb, true⟩
      (Argument.ofNumbers [1, 2, 3, 4, 5, 6, 7, (8 : Float)]).length := by decide
  have hops : Succeeds [.command ⟨.move, false⟩ (Argument.ofNumbers [0, 0]),
      .command ⟨.cubic, false⟩ (Argument.ofNumbers [1, 2, 3, 4, 5, 6]), .save, .fill []]
      (fresh .empty false .radians : Canvas (Recording Float) Float) := by
    have houtcomes : (run [.command ⟨.move, false⟩ (Argument.ofNumbers [0, 0]),
        .command ⟨.cubic, false⟩ (Argument.ofNumbers [1, 2, 3, 4, 5, 6]), .save, .fill []]
        (fresh .empty false .radians : Canvas (Recording Float) Float)).1 =
          [.ok [], .ok [], .ok [], .ok []] := by decide +kernel
    rw [Succeeds, houtcomes]
    simp
  obtain ⟨calls, -, hcalls, hlen, -⟩ :=
    ((smooth_run false .radians hops .cubic true hacc).2 rfl).2 _ (Argument.reals_ofNumbers _)
  exact ⟨hops, hacc, calls, hcalls, hlen⟩

end Runs

end Canvas

end Linework
