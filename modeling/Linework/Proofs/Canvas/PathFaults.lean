import Linework.Proofs.Canvas.Course
import Linework.Proofs.Canvas.Elements
import Linework.Proofs.Canvas.Recorded
import Linework.Proofs.Plane.Conversion

/-!
# What a path can fail with

The elements of a path that has been read hold nothing but numbers, and a recording refuses no
call. Drawing them can then fail for the path's own reasons: a count that is wrong, no current
point, no curve to go on from. The one exception is an arc that cannot be converted to its centre,
and a drawing that gets to such an arc ends with a fault of arithmetic.
-/

set_option autoImplicit false

namespace Linework

open Outline (Command Element)

/-- The faults of a path: that its text cannot be read, or that a command does not fit. -/
def Fault.OfPath (e : Fault) : Prop := e.kind.within .path

instance : DecidablePred Fault.OfPath := fun e => inferInstanceAs (Decidable (e.kind.within .path))

theorem Fault.Arithmetic.not_ofPath {e : Fault} (h : e.Arithmetic) : ¬ e.OfPath := by
  rcases h with rfl | rfl <;> decide

namespace ArcTo

variable {α : Type}

def given (a : ArcTo α) : ArcTo (Argument α) :=
  ⟨Argument.ofPoint a.radii, .number a.rotation, .number a.large, .number a.clockwise,
    Argument.ofPoint a.finish⟩

theorem group_ofNumbers (xs : List α) :
    group (Argument.ofNumbers xs) = (group xs).map given := by
  induction xs using group.induct with
  | case1 rx ry rotation large clockwise x y rest ih =>
    simp only [Argument.ofNumbers, List.map_cons, group] at ih ⊢
    rw [ih]
    rfl
  | case2 xs h =>
    rw [group.eq_2 xs h, group.eq_2]
    · rfl
    · intro rx ry rotation large clockwise x y rest heq
      simp only [Argument.ofNumbers, List.map_eq_cons_iff] at heq
      obtain ⟨_, _, rfl, -, _, _, rfl, -, _, _, rfl, -, _, _, rfl, -, _, _, rfl, -, _, _, rfl, -,
        _, _, rfl, -, -⟩ := heq
      exact h _ _ _ _ _ _ _ _ rfl

variable [Scalar α]

def between (a : ArcTo α) (finish : Point α) : EndpointArc α :=
  ⟨a.radii, a.rotation, !Scalar.isZero a.large, !Scalar.isZero a.clockwise, finish⟩

def finishFrom (relative : Bool) (z : Point α) (a : ArcTo α) : Point α :=
  if relative then z + a.finish else a.finish

theorem request_given (a : ArcTo α) (finish : Point α) :
    a.given.request finish = .ok (a.between finish) := rfl

/-- An arc between two points that cannot be converted, though it is no line and not left out. -/
structure Unfit (a : ArcTo α) (z finish : Point α) (e : Fault) : Prop where
  width : Scalar.isZero a.radii.x = false
  height : Scalar.isZero a.radii.y = false
  apart : z.beq finish = false
  fault : (a.between finish).toArc z true = .error e

end ArcTo

namespace Canvas

section Rules

variable {α : Type} {p : Fault → Prop}

theorem failsOnly_drawCalls (calls : List (Call α)) :
    Act.FailsOnly p (drawCalls calls : Act (Canvas (Recording α) α) Unit) := by
  intro c
  rw [run_drawCalls, Recording.performAll_eq]
  exact onlyFails_ok ()

theorem failsOnly_movePen (f : Pen α → Pen α) :
    Act.FailsOnly p (movePen f : Act (Canvas (Recording α) α) Unit) := Act.failsOnly_modify _

theorem failsOnly_drawThen (calls : List (Call α)) (f : Pen α → Pen α) :
    Act.FailsOnly p (drawThen calls f : Act (Canvas (Recording α) α) Unit) :=
  Act.failsOnly_bind (failsOnly_drawCalls calls) fun _ => failsOnly_movePen f

theorem failsOnly_draw (k : Call α) :
    Act.FailsOnly p (draw k : Act (Canvas (Recording α) α) Unit) := by
  rw [← drawCalls_singleton]
  exact failsOnly_drawCalls [k]

theorem failsOnly_moveTo (z : Point α) :
    Act.FailsOnly p (moveTo z : Act (Canvas (Recording α) α) Unit) :=
  Act.failsOnly_bind (failsOnly_draw _) fun _ => failsOnly_movePen _

end Rules

section Commands

variable {α : Type}

theorem failsOnly_requireCurrent :
    Act.FailsOnly Fault.OfPath (requireCurrent : Act (Canvas (Recording α) α) (Point α)) := by
  intro c
  rw [run_requireCurrent, Pen.requireCurrent]
  split
  · exact onlyFails_ok _
  · exact onlyFails_error (by decide)

theorem failsOnly_requireControl (curve : Curve) :
    Act.FailsOnly Fault.OfPath
      (requireControl curve : Act (Canvas (Recording α) α) (Point α)) := by
  rw [requireControl]
  refine Act.failsOnly_bind Act.failsOnly_get fun c => ?_
  split
  · exact Act.failsOnly_pure _
  · exact Act.failsOnly_throw rfl

theorem failsOnly_ensureOpenAt (z : Point α) :
    Act.FailsOnly Fault.OfPath (ensureOpenAt z : Act (Canvas (Recording α) α) Unit) := by
  rw [ensureOpenAt]
  refine Act.failsOnly_bind Act.failsOnly_get fun c => ?_
  split
  · exact Act.failsOnly_pure _
  · split
    · exact Act.failsOnly_bind (failsOnly_movePen _) fun _ => failsOnly_draw _
    · exact Act.failsOnly_throw rfl

theorem failsOnly_drawLines {p : Fault → Prop} (zs : List (Point α)) :
    Act.FailsOnly p (drawLines zs : Act (Canvas (Recording α) α) Unit) := by
  rw [drawLines_eq_segments]
  exact failsOnly_drawThen _ _

theorem failsOnly_lineThrough (zs : List (Point α)) :
    Act.FailsOnly Fault.OfPath (lineThrough zs : Act (Canvas (Recording α) α) Unit) := by
  cases zs with
  | nil => exact Act.failsOnly_pure _
  | cons z rest =>
    exact Act.failsOnly_bind (failsOnly_ensureOpenAt z) fun _ => failsOnly_drawLines _

theorem failsOnly_drawCubics {p : Fault → Prop} (cs : List (CubicTo α)) :
    Act.FailsOnly p (drawCubics cs : Act (Canvas (Recording α) α) Unit) := by
  rw [drawCubics_eq_segments]
  exact failsOnly_drawThen _ _

theorem failsOnly_drawQuadratics {p : Fault → Prop} (qs : List (QuadraticTo α)) :
    Act.FailsOnly p (drawQuadratics qs : Act (Canvas (Recording α) α) Unit) := by
  rw [drawQuadratics_eq_segments]
  exact failsOnly_drawThen _ _

variable [Scalar α] (xs : List α)

theorem failsOnly_points {p : Fault → Prop} :
    Act.FailsOnly p (points (Argument.ofNumbers xs) :
      Act (Canvas (Recording α) α) (List (Point α))) := by
  rw [points, Argument.reals_ofNumbers]
  exact Act.failsOnly_ofExcept (onlyFails_ok _)

theorem failsOnly_goingOn {f : Point α → List (Point α) → Act (Canvas (Recording α) α) Unit}
    (hf : ∀ z zs, Act.FailsOnly Fault.OfPath (f z zs)) :
    Act.FailsOnly Fault.OfPath
      (requireCurrent >>= fun z => points (Argument.ofNumbers xs) >>= f z) :=
  Act.failsOnly_bind failsOnly_requireCurrent fun z =>
    Act.failsOnly_bind (failsOnly_points xs) (hf z)

theorem failsOnly_line (relative : Bool) :
    Act.FailsOnly Fault.OfPath
      (line relative (Argument.ofNumbers xs) : Act (Canvas (Recording α) α) Unit) := by
  cases relative with
  | true => exact failsOnly_goingOn xs fun _ _ => failsOnly_drawLines _
  | false => exact Act.failsOnly_bind (failsOnly_points xs) failsOnly_lineThrough

theorem failsOnly_move (relative : Bool) :
    Act.FailsOnly Fault.OfPath
      (move relative (Argument.ofNumbers xs) : Act (Canvas (Recording α) α) Unit) := by
  match xs with
  | [] | [_] => exact Act.failsOnly_pure _
  | x :: y :: rest =>
    rw [Argument.ofNumbers, List.map_cons, List.map_cons, move]
    refine Act.failsOnly_bind (Act.failsOnly_ofExcept (onlyFails_ok _)) fun z => ?_
    refine Act.failsOnly_bind Act.failsOnly_get fun c => ?_
    refine Act.failsOnly_bind (failsOnly_moveTo _) fun _ => ?_
    split
    · exact Act.failsOnly_pure _
    · exact failsOnly_line rest relative

theorem failsOnly_axisLine (step : Point α → α → Point α) :
    Act.FailsOnly Fault.OfPath
      (axisLine step (Argument.ofNumbers xs) : Act (Canvas (Recording α) α) Unit) := by
  refine Act.failsOnly_bind failsOnly_requireCurrent fun z => ?_
  rw [drawAlong_of_reals step z (Argument.reals_ofNumbers xs)]
  exact failsOnly_drawLines _

theorem failsOnly_fromFirst {f : List (Point α) → Act (Canvas (Recording α) α) Unit}
    (hf : ∀ zs, Act.FailsOnly Fault.OfPath (f zs)) :
    Act.FailsOnly Fault.OfPath (points (Argument.ofNumbers xs) >>= fun zs =>
      match zs with
      | [] => pure ()
      | z :: rest => ensureOpenAt z >>= fun _ => f (z :: rest)) := by
  refine Act.failsOnly_bind (failsOnly_points xs) fun zs => ?_
  cases zs with
  | nil => exact Act.failsOnly_pure _
  | cons z rest => exact Act.failsOnly_bind (failsOnly_ensureOpenAt z) fun _ => hf _

theorem failsOnly_cubic (relative : Bool) :
    Act.FailsOnly Fault.OfPath
      (cubic relative (Argument.ofNumbers xs) : Act (Canvas (Recording α) α) Unit) := by
  cases relative with
  | true => exact failsOnly_goingOn xs fun _ _ => failsOnly_drawCubics _
  | false => exact failsOnly_fromFirst xs fun zs => failsOnly_drawCubics _

theorem failsOnly_quadratic (relative : Bool) :
    Act.FailsOnly Fault.OfPath
      (quadratic relative (Argument.ofNumbers xs) : Act (Canvas (Recording α) α) Unit) := by
  cases relative with
  | true => exact failsOnly_goingOn xs fun _ _ => failsOnly_drawQuadratics _
  | false => exact failsOnly_fromFirst xs fun zs => failsOnly_drawQuadratics _

theorem failsOnly_smoothCubic (relative : Bool) :
    Act.FailsOnly Fault.OfPath
      (smoothCubic relative (Argument.ofNumbers xs) : Act (Canvas (Recording α) α) Unit) :=
  Act.failsOnly_bind (failsOnly_requireControl .cubic) fun _ =>
    failsOnly_goingOn xs fun _ _ => failsOnly_drawCubics _

theorem failsOnly_smoothQuadratic (relative : Bool) :
    Act.FailsOnly Fault.OfPath
      (smoothQuadratic relative (Argument.ofNumbers xs) : Act (Canvas (Recording α) α) Unit) :=
  Act.failsOnly_bind (failsOnly_requireControl .quadratic) fun _ =>
    failsOnly_goingOn xs fun _ _ => failsOnly_drawQuadratics _

theorem failsOnly_carryOut {k : Command} (hk : k.verb ≠ .arc) :
    Act.FailsOnly Fault.OfPath
      (carryOut k (Argument.ofNumbers xs) : Act (Canvas (Recording α) α) Unit) := by
  rw [carryOut]
  split
  · exact failsOnly_move xs _
  · exact failsOnly_line xs _
  · exact failsOnly_axisLine xs _
  · exact failsOnly_axisLine xs _
  · exact failsOnly_cubic xs _
  · exact failsOnly_smoothCubic xs _
  · exact failsOnly_quadratic xs _
  · exact failsOnly_smoothQuadratic xs _
  · next hv => exact absurd hv hk
  · exact Act.failsOnly_bind (failsOnly_draw _) fun _ => failsOnly_movePen _

end Commands

section Arcs

variable {σ α : Type} [Scalar α] [Surface σ α]

def arcFrom (relative : Bool) (a : ArcTo (Argument α)) : Act (Canvas σ α) Unit :=
  if relative then do
    let current ← requireCurrent
    let offset ← Act.ofExcept (Argument.point a.finish)
    arcSegment a (current + offset)
  else do
    let finish ← Act.ofExcept (Argument.point a.finish)
    arcSegment a finish

theorem arcs_eq_forEach (relative : Bool) (as : List (ArcTo (Argument α))) :
    (arcs relative as : Act (Canvas σ α) Unit) = Act.forEach (arcFrom relative) as := by
  induction as with
  | nil => rfl
  | cons a rest ih =>
    rw [arcs, ih, Act.forEach, arcFrom]
    cases relative <;> simp

theorem elements_eq_forEach (es : List (Element α)) :
    (elements es : Act (Canvas σ α) Unit) =
      Act.forEach (fun e => command e.command (Argument.ofNumbers e.numbers)) es := by
  induction es with
  | nil => rfl
  | cons e rest ih => rw [elements, ih, Act.forEach]

end Arcs

section Stuck

variable {α : Type} [Scalar α] {c t : Canvas (Recording α) α} {e : Fault} {a : ArcTo α}

theorem arcSegment_given_of_line {finish : Point α}
    (h : (Scalar.isZero a.radii.x || Scalar.isZero a.radii.y) = true) :
    (arcSegment a.given finish : Act (Canvas (Recording α) α) Unit) = lineThrough [finish] :=
  if_pos h

theorem arcSegment_given_of_arc {finish : Point α}
    (h : (Scalar.isZero a.radii.x || Scalar.isZero a.radii.y) = false) :
    (arcSegment a.given finish : Act (Canvas (Recording α) α) Unit) = (do
      let start ← requireCurrent
      if start.beq finish then movePen fun p => p.moveTo finish
      else
        let arc ← Act.ofExcept ((a.between finish).toArc start true)
        drawThen [.oval ⟨arc.ellipse, arc.startAngle, arc.endAngle, !(a.between finish).clockwise⟩]
          fun p => p.moveTo finish) := by
  have hline : ¬ (a.given.radii.x.isZero || a.given.radii.y.isZero) = true := by
    rw [Bool.not_eq_true]
    exact h
  rw [arcSegment, if_neg hline]
  simp only [ArcTo.request_given, Act.ofExcept_ok, pure_bind, drawThen_singleton]

/-- An arc that is drawn at all asks for the current point, and fails with what its conversion
fails with. -/
theorem run_arcSegment_given {finish z : Point α}
    (h : (Scalar.isZero a.radii.x || Scalar.isZero a.radii.y) = false)
    (hc : c.pen.current = some z) (hb : z.beq finish = false) :
    (arcSegment a.given finish).run c =
      (Act.ofExcept ((a.between finish).toArc z true) >>= fun arc =>
        drawThen [.oval ⟨arc.ellipse, arc.startAngle, arc.endAngle, !(a.between finish).clockwise⟩]
          fun p => p.moveTo finish).run c := by
  rw [arcSegment_given_of_arc h, Act.run_bind_ok (run_requireCurrent_of_some hc), hb,
    if_neg Bool.false_ne_true]

theorem unfit_of_run_arcSegment {finish : Point α} (he : ¬ e.OfPath)
    (h : (arcSegment a.given finish).run c = (.error e, t)) :
    t = c ∧ ∃ z, c.pen.current = some z ∧ a.Unfit z finish e := by
  cases hr : Scalar.isZero a.radii.x || Scalar.isZero a.radii.y with
  | true =>
    rw [arcSegment_given_of_line hr] at h
    exact absurd (failsOnly_lineThrough [finish] c e (by rw [h])) he
  | false =>
    cases hc : c.pen.current with
    | none =>
      rw [arcSegment_given_of_arc hr, Act.run_bind_error (run_requireCurrent_of_none hc)] at h
      cases h
      exact absurd (by decide) he
    | some z =>
      cases hb : z.beq finish with
      | true =>
        rw [arcSegment_given_of_arc hr, Act.run_bind_ok (run_requireCurrent_of_some hc), hb,
          if_pos rfl] at h
        cases h
      | false =>
        rw [run_arcSegment_given hr hc hb] at h
        obtain ⟨hw, hh⟩ := Bool.or_eq_false_iff.mp hr
        rcases ha : (a.between finish).toArc z true with f | arc
        · rw [ha] at h
          cases h
          exact ⟨rfl, z, rfl, hw, hh, hb, ha⟩
        · rw [ha, Act.ofExcept_ok, pure_bind] at h
          exact absurd (failsOnly_drawThen _ _ c e (by rw [h])) he

theorem run_arcSegment_of_unfit {finish z : Point α} (hz : c.pen.current = some z)
    (h : a.Unfit z finish e) : (arcSegment a.given finish).run c = (.error e, c) := by
  have hr : (Scalar.isZero a.radii.x || Scalar.isZero a.radii.y) = false := by
    rw [h.width, h.height]
    rfl
  rw [run_arcSegment_given hr hz h.apart, h.fault, Act.ofExcept_error, Act.throw_bind,
    Act.run_throw]

theorem run_arcFrom_given_error_iff {relative : Bool} (he : ¬ e.OfPath) :
    (arcFrom relative a.given).run c = (.error e, t) ↔
      t = c ∧ ∃ z, c.pen.current = some z ∧ a.Unfit z (a.finishFrom relative z) e := by
  have hfinish : Argument.point a.given.finish = .ok a.finish := rfl
  cases relative with
  | false =>
    rw [arcFrom, if_neg Bool.false_ne_true, hfinish, Act.ofExcept_ok, pure_bind]
    constructor
    · exact unfit_of_run_arcSegment he
    · rintro ⟨rfl, z, hz, h⟩
      exact run_arcSegment_of_unfit hz h
  | true =>
    rw [arcFrom, if_pos rfl, hfinish]
    cases hc : c.pen.current with
    | none =>
      rw [Act.run_bind_error (run_requireCurrent_of_none hc)]
      constructor
      · intro h
        cases h
        exact absurd (by decide) he
      · rintro ⟨-, z, ⟨⟩, -⟩
    | some z =>
      rw [Act.run_bind_ok (run_requireCurrent_of_some hc), Act.ofExcept_ok, pure_bind]
      constructor
      · intro h
        obtain ⟨rfl, w, hw, hu⟩ := unfit_of_run_arcSegment he h
        rw [hc] at hw
        cases hw
        exact ⟨rfl, z, rfl, hu⟩
      · rintro ⟨rfl, w, ⟨⟩, hu⟩
        exact run_arcSegment_of_unfit hc hu

end Stuck

section Paths

variable {c : Canvas (Recording Float) Float} {es : List (Element Float)} {e : Fault}

/-- Drawing elements gets to an arc that cannot be converted: the elements before it are drawn, and
so are the arcs of its own element before it. -/
inductive Stuck : List (Element Float) → Canvas (Recording Float) Float → Fault → Prop
  | arc {before after : List (Element Float)} {relative : Bool} {numbers : List Float}
      {done rest : List (ArcTo Float)} {a : ArcTo Float} {c s t : Canvas (Recording Float) Float}
      {z : Point Float} {e : Fault} (hacc : accepts ⟨.arc, relative⟩ numbers.length)
      (hgroup : ArcTo.group numbers = done ++ a :: rest)
      (hbefore : (elements before).run c = (.ok (), s))
      (hdone : (arcs relative (done.map ArcTo.given)).run s = (.ok (), t))
      (hz : t.pen.current = some z) (hu : a.Unfit z (a.finishFrom relative z) e) :
      Stuck (before ++ ⟨⟨.arc, relative⟩, numbers⟩ :: after) c e

theorem arithmetic_of_unfit {a : ArcTo Float} {z finish : Point Float} (h : a.Unfit z finish e) :
    e.Arithmetic :=
  EndpointArc.onlyFails_toArc (a.between finish) z h.width h.height h.apart e h.fault

theorem arithmetic_of_stuck (h : Stuck es c e) : e.Arithmetic := by
  cases h with
  | arc _ _ _ _ _ hu => exact arithmetic_of_unfit hu

theorem exists_unfit_of_command {k : Command} {xs : List Float} {t : Canvas (Recording Float) Float}
    (he : ¬ e.OfPath) (h : (command k (Argument.ofNumbers xs)).run c = (.error e, t)) :
    k.verb = .arc ∧ accepts k xs.length ∧ ∃ done a rest z,
      ArcTo.group xs = done ++ a :: rest ∧
        (arcs k.relative (done.map ArcTo.given)).run c = (.ok (), t) ∧
        t.pen.current = some z ∧ a.Unfit z (a.finishFrom k.relative z) e := by
  rw [command, Argument.length_ofNumbers] at h
  split at h
  · next hacc =>
    by_cases hk : k.verb = .arc
    · rw [carryOut, hk, ArcTo.group_ofNumbers, arcs_eq_forEach, Act.run_forEach_error_iff] at h
      obtain ⟨done, a, rest, u, hsplit, hdone, ha⟩ := h
      obtain ⟨done, _, hgroup, rfl, hrest⟩ := List.map_eq_append_iff.mp hsplit
      obtain ⟨a, rest, rfl, rfl, rfl⟩ := List.map_eq_cons_iff.mp hrest
      obtain ⟨rfl, z, hz, hu⟩ := (run_arcFrom_given_error_iff he).mp ha
      rw [← arcs_eq_forEach] at hdone
      exact ⟨hk, hacc, done, a, rest, z, hgroup, hdone, hz, hu⟩
    · exact absurd (failsOnly_carryOut xs hk c e (by rw [h])) he
  · cases h
    exact absurd rfl he

theorem run_elements_error_iff (he : ¬ e.OfPath) :
    ((elements es).run c).1 = .error e ↔ Stuck es c e := by
  constructor
  · intro h
    rcases hrun : (elements es).run c with ⟨_, t⟩
    rw [hrun] at h
    subst h
    rw [elements_eq_forEach, Act.run_forEach_error_iff] at hrun
    obtain ⟨before, ⟨⟨v, relative⟩, numbers⟩, after, s, rfl, hbefore, hk⟩ := hrun
    obtain ⟨rfl, hacc, done, a, rest, z, hgroup, hdone, hz, hu⟩ := exists_unfit_of_command he hk
    rw [← elements_eq_forEach] at hbefore
    exact .arc hacc hgroup hbefore hdone hz hu
  · rintro @⟨before, after, relative, numbers, done, rest, a, _, s, t, z, _, hacc, hgroup, hbefore,
      hdone, hz, hu⟩
    have harc : (command ⟨.arc, relative⟩ (Argument.ofNumbers numbers)).run s = (.error e, t) := by
      rw [command, Argument.length_ofNumbers, if_pos hacc, carryOut, ArcTo.group_ofNumbers, hgroup,
        arcs_eq_forEach, Act.run_forEach_error_iff]
      refine ⟨done.map ArcTo.given, a.given, rest.map ArcTo.given, t, by simp, ?_, ?_⟩
      · rw [← arcs_eq_forEach, hdone]
      · exact (run_arcFrom_given_error_iff he).mpr ⟨rfl, z, hz, hu⟩
    have hrun : (elements (before ++ ⟨⟨.arc, relative⟩, numbers⟩ :: after)).run c =
        (.error e, t) := by
      rw [elements_eq_forEach, Act.run_forEach_error_iff]
      exact ⟨before, _, after, s, rfl, by rw [← elements_eq_forEach, hbefore], harc⟩
    rw [hrun]

theorem step_path_eq_error_iff {text : String} (h : Outline.parse text = .ok es) :
    (step (.path text) c).1 = .error e ↔ ((elements es).run c).1 = .error e := by
  rw [step_path_of_ok h, follow_ofElement, run_quietly]
  rcases (elements es).run c with ⟨_ | _, t⟩ <;> simp

/-- A path either is drawn or fails for reasons of its own, unless the drawing gets to an arc that
cannot be converted; only arithmetic can fail then. -/
theorem path_fails_ofPath_iff (text : String) (c : Canvas (Recording Float) Float) :
    ((∀ e, (step (.path text) c).1 = .error e → e.OfPath) ↔
      ∀ es e, Outline.parse text = .ok es → ¬ Stuck es c e) ∧
    ∀ e, (step (.path text) c).1 = .error e → ¬ e.OfPath →
      e.Arithmetic ∧ ∃ es, Outline.parse text = .ok es ∧ Stuck es c e := by
  have hstuck : ∀ e, (step (.path text) c).1 = .error e → ¬ e.OfPath →
      ∃ es, Outline.parse text = .ok es ∧ Stuck es c e := by
    intro e he hnot
    rcases hp : (Outline.parse text : Except Fault (List (Element Float))) with fault | es
    · obtain ⟨-, reason, rfl⟩ := Outline.breaks_of_parse hp
      rw [step_path_of_error hp] at he
      cases he
      exact absurd rfl hnot
    · rw [step_path_eq_error_iff hp, run_elements_error_iff hnot] at he
      exact ⟨es, rfl, he⟩
  refine ⟨⟨fun h es e hp hs => ?_, fun h e he => ?_⟩, fun e he hnot => ?_⟩
  · have hnot := (arithmetic_of_stuck hs).not_ofPath
    exact hnot (h e ((step_path_eq_error_iff hp).mpr ((run_elements_error_iff hnot).mpr hs)))
  · by_contra hnot
    obtain ⟨es, hp, hs⟩ := hstuck e he hnot
    exact h es e hp hs
  · obtain ⟨es, hp, hs⟩ := hstuck e he hnot
    exact ⟨arithmetic_of_stuck hs, es, hp, hs⟩

theorem not_ofPath_of_tiny_radii :
    ∃ e, (step (.path "M 0 0 A 1e-200 1e-200 0 0 1 1 1")
      (fresh .empty true .radians : Canvas (Recording Float) Float)).1 = .error e ∧
        ¬ e.OfPath :=
  -- The square of a radius may be too small to be told from zero.
  ⟨.divisionByZero, by decide +kernel, by decide⟩

end Paths

end Canvas

end Linework
