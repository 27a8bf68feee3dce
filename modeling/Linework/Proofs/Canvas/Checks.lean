import Linework.Proofs.Canvas.PathFaults
import Linework.Proofs.Canvas.Rows
import Linework.Proofs.Canvas.Watched

/-!
# Commands that fail a check

A command checks the number of its arguments, the current point, the control point to go on from
and the signs of its radii. Whichever check fails, nothing has been asked of the surface by then
and the canvas is as it was. An arc may come after others that were drawn, but these have left a
current point, so that its checks are passed.
-/

set_option autoImplicit false

namespace Linework

open Outline (Command)
open Canvas (Bare)

/-- The faults of the checks that a command makes by itself. -/
def Fault.isCheck : Fault → Bool
  | .negativeRadii | .negativeRadius => true
  | e => e.kind == .argumentCount || e.kind == .noCurrentPoint || e.kind == .noSmoothContext

def Fault.OfCheck (e : Fault) : Prop := e.isCheck = true

instance : DecidablePred Fault.OfCheck := fun e => inferInstanceAs (Decidable (e.isCheck = true))

def Fault.Unchecked (e : Fault) : Prop := ¬ e.OfCheck

instance : DecidablePred Fault.Unchecked := fun e => inferInstanceAs (Decidable (¬ e.OfCheck))

theorem onlyFails_unchecked {β : Type} {e : Fault} (h : e.isCheck = false) :
    OnlyFails Fault.Unchecked (.error e : Except Fault β) :=
  onlyFails_error fun hc => Bool.false_ne_true (h.symm.trans hc)

theorem Fault.Arithmetic.unchecked {e : Fault} (h : e.Arithmetic) : e.Unchecked := by
  rcases h with rfl | rfl <;> decide

section Geometry

variable {α : Type} [Scalar α]

theorem Argument.unchecked_real (a : Argument α) : OnlyFails Fault.Unchecked a.real := by
  cases a with
  | number x | flag b => exact onlyFails_ok _
  | absent | style s | other v => exact onlyFails_unchecked rfl

theorem Argument.unchecked_reals (as : List (Argument α)) :
    OnlyFails Fault.Unchecked (reals as) := by
  intro e he
  rw [reals_error he]
  decide

theorem Argument.unchecked_points (as : List (Argument α)) :
    OnlyFails Fault.Unchecked ((reals as).map Point.pairs) := by
  intro e he
  rcases hr : reals as with f | xs
  · rw [hr] at he
    cases he
    exact unchecked_reals as _ hr
  · rw [hr] at he
    cases he

theorem Argument.unchecked_point (p : Point (Argument α)) :
    OnlyFails Fault.Unchecked (point p) :=
  onlyFails_bind (unchecked_real p.x) fun _ =>
    onlyFails_bind (unchecked_real p.y) fun _ => onlyFails_ok _

theorem Point.unchecked_direction (p : Point α) : OnlyFails Fault.Unchecked p.direction := by
  have hlength := (onlyFails_length p).imp fun _ => Fault.Arithmetic.unchecked
  refine onlyFails_bind hlength fun size => ?_
  split
  · exact onlyFails_unchecked rfl
  · exact (onlyFails_div p _).imp fun _ => Fault.Arithmetic.unchecked

theorem EndpointArc.unchecked_toArc (request : EndpointArc α) (start : Point α) :
    OnlyFails Fault.Unchecked (request.toArc start true) := by
  by_cases hne : start.beq request.finish
  · rw [toArc, if_pos hne]
    exact onlyFails_unchecked rfl
  by_cases hr : Scalar.isZero (Scalar.magnitude request.radii.x) ||
      Scalar.isZero (Scalar.magnitude request.radii.y)
  · rw [toArc, if_neg hne, if_pos hr]
    exact onlyFails_unchecked rfl
  · rw [Bool.not_eq_true] at hne hr
    exact (onlyFails_toArc_of_fits request start hne hr).imp fun _ => Fault.Arithmetic.unchecked

theorem ArcTo.unchecked_request (a : ArcTo (Argument α)) (finish : Point α) :
    OnlyFails Fault.Unchecked (a.request finish) :=
  onlyFails_bind (Argument.unchecked_point a.radii) fun _ =>
    onlyFails_bind (Argument.unchecked_real a.rotation) fun _ => onlyFails_ok _

theorem Fillet.unchecked_inCorner (p0 p1 p2 : Point α) (theta r : α) :
    OnlyFails Fault.Unchecked (inCorner p0 p1 p2 theta r) := by
  have hdivide : ∀ a b : α, OnlyFails Fault.Unchecked (Scalar.divide a b) := fun a b =>
    (onlyFails_divide a b).imp fun _ => Fault.Arithmetic.unchecked
  refine onlyFails_bind (Point.unchecked_direction _) fun u0 => ?_
  refine onlyFails_bind (Point.unchecked_direction _) fun u2 => ?_
  refine onlyFails_bind (hdivide _ _) fun distance => ?_
  refine onlyFails_bind (hdivide _ _) fun reach => ?_
  exact onlyFails_bind (Point.unchecked_direction _) fun middle => onlyFails_ok _

theorem Fillet.unchecked_of? (p0 p1 p2 : Point α) (r : α) :
    OnlyFails Fault.Unchecked (Fillet.of? p0 p1 p2 r) := by
  rw [of?]
  split
  · exact onlyFails_ok _
  refine onlyFails_bind ((Point.onlyFails_angleTo _ _).imp fun _ => Fault.Arithmetic.unchecked)
    fun angle => ?_
  dsimp only
  split
  · exact onlyFails_ok _
  · exact onlyFails_bind (unchecked_inCorner p0 p1 p2 _ r) fun _ => onlyFails_ok _

end Geometry

def Op.isCommand {α : Type} : Op α → Bool
  | .command .. | .oval _ | .roundedCorner .. => true
  | _ => false

/-- A surface is asked for some calls and fails at one of them. -/
def Surface.Raises {σ α : Type} [Surface σ α] (e : Fault) (s t : σ) : Prop :=
  ∃ before k w u, performAll before s = (w, none, u) ∧
    (perform k : Act σ (List Warning)).run u = (.error e, t)

namespace Canvas

section Recordings

variable {α : Type} {c : Canvas (Recording α) α}

theorem failsEarly_of_failsOnly {β : Type} {m : Act (Canvas (Recording α) α) β}
    (h : Act.FailsOnly Fault.Unchecked m) : Act.FailsEarly Fault.OfCheck m c :=
  Act.failsEarly_of_onlyFails (h c)

theorem failsEarly_bind_requireCurrent {f : Point α → Act (Canvas (Recording α) α) Unit}
    (hf : ∀ z, c.pen.current = some z → Act.FailsEarly Fault.OfCheck (f z) c) :
    Act.FailsEarly Fault.OfCheck (requireCurrent >>= f) c :=
  Act.failsEarly_bind_of_reads (run_requireCurrent c) fun z hz =>
    hf z (Pen.current_of_requireCurrent hz)

/-- Opening a subpath comes last of the checks: what comes after it must not fail one. -/
theorem failsEarly_bind_ensureOpenAt (z : Point α) {f : Unit → Act (Canvas (Recording α) α) Unit}
    (hf : Act.FailsOnly Fault.Unchecked (f ())) :
    Act.FailsEarly Fault.OfCheck (ensureOpenAt z >>= f) c := by
  refine Act.failsEarly_bind ?_ fun _ t _ => hf t
  cases ho : c.pen.isOpen with
  | true => exact Act.failsEarly_of_reads (run_ensureOpenAt_of_open ho)
  | false =>
    cases ha : c.autoOpen with
    | false => exact Act.failsEarly_of_reads (run_ensureOpenAt_of_strict ho ha)
    | true =>
      apply Act.failsEarly_of_onlyFails
      rw [run_ensureOpenAt_of_closed ho ha]
      exact failsOnly_drawCalls _ _

theorem failsEarly_lineThrough (zs : List (Point α)) :
    Act.FailsEarly Fault.OfCheck (lineThrough zs) c := by
  cases zs with
  | nil => exact Act.failsEarly_of_reads (Act.run_pure () c)
  | cons z rest => exact failsEarly_bind_ensureOpenAt z (failsOnly_drawLines _)

theorem failsEarly_close : Act.FailsEarly Fault.OfCheck close c :=
  failsEarly_of_failsOnly (Act.failsOnly_bind (failsOnly_draw _) fun _ => failsOnly_movePen _)

variable [Scalar α]

theorem failsEarly_drawNumbers (k : Command) (xs : List α) :
    Act.FailsEarly Fault.OfCheck (drawNumbers k xs) c := by
  have hdraw : Act.FailsOnly Fault.Unchecked (get >>= fun d : Canvas (Recording α) α =>
      drawSegments (d.pen.row k xs)) :=
    Act.failsOnly_bind Act.failsOnly_get fun _ => failsOnly_drawThen _ _
  rw [drawNumbers, openFor.eq_def]
  split
  · split
    · exact failsEarly_bind_ensureOpenAt _ hdraw
    · exact failsEarly_of_failsOnly hdraw
  · exact failsEarly_of_failsOnly hdraw

theorem failsEarly_row {k : Command} (hr : k.verb.readsAhead) (hk : k.verb.drawsSegments)
    (as : List (Argument α)) : Act.FailsEarly Fault.OfCheck (carryOut k as) c := by
  intro e t h
  obtain ⟨x, hlook⟩ := lookFor_reads k c
  rw [run_carryOut hr hk] at h
  exact Act.failsEarly_bind_of_reads hlook
    (fun _ _ => Act.failsEarly_bind_ofExcept fun xs => failsEarly_drawNumbers k xs) e t h

theorem unchecked_line_of_open (relative : Bool) (as : List (Argument α)) (ho : c.pen.isOpen) :
    OnlyFails Fault.Unchecked ((line relative as).run c).1 := by
  obtain ⟨z, hz⟩ := Pen.isOpen_iff.mp ho
  have hpoints := Argument.unchecked_points as
  cases relative with
  | true =>
    rw [line, if_pos rfl, Act.run_bind_ok (run_requireCurrent_of_some hz)]
    exact Act.onlyFails_run_bind_ofExcept hpoints fun zs => failsOnly_drawLines _ c
  | false =>
    refine Act.onlyFails_run_bind_ofExcept hpoints fun zs => ?_
    cases zs with
    | nil => exact onlyFails_ok ()
    | cons y rest =>
      rw [lineThrough, Act.run_bind_ok (run_ensureOpenAt_of_open ho)]
      exact failsOnly_drawLines _ c

theorem failsEarly_move (relative : Bool) (as : List (Argument α)) :
    Act.FailsEarly Fault.OfCheck (move relative as) c := by
  match as with
  | [] | [_] => exact Act.failsEarly_of_reads (Act.run_pure () c)
  | x :: y :: rest =>
    refine Act.failsEarly_bind_ofExcept fun z => ?_
    refine Act.failsEarly_bind_of_reads (Act.run_get c) fun _ _ => ?_
    refine Act.failsEarly_bind (failsEarly_of_failsOnly (failsOnly_moveTo _)) fun _ t ht => ?_
    split
    · exact onlyFails_ok ()
    · exact unchecked_line_of_open relative rest (isOpen_of_moveTo ht)

theorem unchecked_drawAlong (step : Point α → α → Point α) (p : Point α)
    (as : List (Argument α)) :
    Act.FailsOnly Fault.Unchecked
      (drawAlong step p as : Act (Canvas (Recording α) α) Unit) := by
  rcases h : Argument.reals as with e | xs
  · rw [drawAlong_of_error step p h]
    exact Act.failsOnly_bind (failsOnly_drawCalls _) fun _ =>
      Act.failsOnly_throw (Argument.unchecked_reals as e h)
  · rw [drawAlong_of_reals step p h]
    exact failsOnly_drawLines _

theorem failsEarly_axisLine (step : Point α → α → Point α) (as : List (Argument α)) :
    Act.FailsEarly Fault.OfCheck (axisLine step as) c :=
  failsEarly_bind_requireCurrent fun _ _ => failsEarly_of_failsOnly (unchecked_drawAlong step _ as)

theorem unchecked_arcSegment_of_open (a : ArcTo (Argument α)) (finish : Point α)
    (ho : c.pen.isOpen) : OnlyFails Fault.Unchecked ((arcSegment a finish).run c).1 := by
  obtain ⟨z, hz⟩ := Pen.isOpen_iff.mp ho
  rw [arcSegment]
  split
  · rw [lineThrough, Act.run_bind_ok (run_ensureOpenAt_of_open ho)]
    exact failsOnly_drawLines _ c
  rw [Act.run_bind_ok (run_requireCurrent_of_some hz)]
  split
  · exact failsOnly_movePen _ c
  refine Act.failsOnly_bind (Act.failsOnly_ofExcept (ArcTo.unchecked_request a finish))
    (fun request => ?_) c
  refine Act.failsOnly_bind (Act.failsOnly_ofExcept (EndpointArc.unchecked_toArc request z))
    fun arc => ?_
  exact Act.failsOnly_bind (failsOnly_draw _) fun _ => failsOnly_movePen _

theorem failsEarly_arcSegment (a : ArcTo (Argument α)) (finish : Point α) :
    Act.FailsEarly Fault.OfCheck (arcSegment a finish) c := by
  rw [arcSegment]
  split
  · exact failsEarly_lineThrough [finish]
  refine failsEarly_bind_requireCurrent fun z _ => ?_
  split
  · exact failsEarly_of_failsOnly (failsOnly_movePen _)
  refine Act.failsEarly_bind_ofExcept fun request => ?_
  refine Act.failsEarly_bind_ofExcept fun arc => ?_
  exact failsEarly_of_failsOnly
    (Act.failsOnly_bind (failsOnly_draw _) fun _ => failsOnly_movePen _)

theorem ensures_open_arcSegment (a : ArcTo (Argument α)) (finish : Point α) :
    Act.Ensures (fun _ => True) (fun d => d.pen.isOpen)
      (arcSegment a finish : Act (Canvas (Recording α) α) Unit) := by
  have hmove : Act.Ensures (fun _ => True) (fun d => d.pen.isOpen)
      (movePen (fun p => p.moveTo finish) : Act (Canvas (Recording α) α) Unit) :=
    Act.ensures_modify fun _ _ => rfl
  rw [arcSegment]
  split
  · exact Act.ensures_bind (Act.ensures_true _) fun _ =>
      Act.ensures_bind (Act.ensures_true _) fun _ => hmove
  refine Act.ensures_bind (Act.ensures_true _) fun start => ?_
  split
  · exact hmove
  · exact Act.ensures_bind (Act.ensures_true _) fun _ => Act.ensures_bind (Act.ensures_true _)
      fun _ => Act.ensures_bind (Act.ensures_true _) fun _ => hmove

theorem ensures_open_arcFrom (relative : Bool) (a : ArcTo (Argument α)) :
    Act.Ensures (fun _ => True) (fun d => d.pen.isOpen)
      (arcFrom relative a : Act (Canvas (Recording α) α) Unit) := by
  rw [arcFrom]
  split
  · exact Act.ensures_bind (Act.ensures_true _) fun _ => Act.ensures_bind (Act.ensures_true _)
      fun _ => ensures_open_arcSegment a _
  · exact Act.ensures_bind (Act.ensures_true _) fun _ => ensures_open_arcSegment a _

theorem failsEarly_arcFrom (relative : Bool) (a : ArcTo (Argument α)) :
    Act.FailsEarly Fault.OfCheck (arcFrom relative a) c := by
  rw [arcFrom]
  split
  · exact failsEarly_bind_requireCurrent fun _ _ => Act.failsEarly_bind_ofExcept fun _ =>
      failsEarly_arcSegment a _
  · exact Act.failsEarly_bind_ofExcept fun finish => failsEarly_arcSegment a finish

theorem unchecked_arcFrom_of_open (relative : Bool) (a : ArcTo (Argument α)) (ho : c.pen.isOpen) :
    OnlyFails Fault.Unchecked ((arcFrom relative a).run c).1 := by
  obtain ⟨z, hz⟩ := Pen.isOpen_iff.mp ho
  have hfinish := Argument.unchecked_point a.finish
  rw [arcFrom]
  split
  · rw [Act.run_bind_ok (run_requireCurrent_of_some hz)]
    exact Act.onlyFails_run_bind_ofExcept hfinish fun _ => unchecked_arcSegment_of_open a _ ho
  · exact Act.onlyFails_run_bind_ofExcept hfinish fun _ => unchecked_arcSegment_of_open a _ ho

theorem failsEarly_arcs (relative : Bool) (as : List (ArcTo (Argument α))) :
    Act.FailsEarly Fault.OfCheck (arcs relative as) c := by
  rw [arcs_eq_forEach]
  exact Act.failsEarly_forEach (failsEarly_arcFrom relative)
    (fun a t u h => ensures_open_arcFrom relative a t () u trivial h)
    fun a t ht => unchecked_arcFrom_of_open relative a ht

theorem failsEarly_carryOut (k : Command) (as : List (Argument α)) :
    Act.FailsEarly Fault.OfCheck (carryOut k as) c := by
  obtain ⟨v, relative⟩ := k
  cases v with
  | line | cubic | smoothCubic | quadratic | smoothQuadratic => exact failsEarly_row rfl rfl as
  | move => exact failsEarly_move relative as
  | horizontal | vertical => exact failsEarly_axisLine _ as
  | arc => exact failsEarly_arcs relative _
  | close => exact failsEarly_close

theorem failsEarly_command (k : Command) (as : List (Argument α)) :
    Act.FailsEarly Fault.OfCheck (command k as) c := by
  rw [command]
  split
  · exact failsEarly_carryOut k as
  · exact Act.failsEarly_of_reads (Act.run_throw _ c)

theorem failsEarly_oval (request : OvalRequest α) :
    Act.FailsEarly Fault.OfCheck (oval request) c := by
  refine Act.failsEarly_bind_of_reads (Act.run_get c) fun d _ => ?_
  refine Act.failsEarly_bind_ofExcept fun r => ?_
  refine Act.failsEarly_bind_ofExcept fun radii => ?_
  split
  · exact Act.failsEarly_of_reads (Act.run_throw _ c)
  refine Act.failsEarly_bind_ofExcept fun o => ?_
  refine Act.failsEarly_bind_ofExcept fun arc => ?_
  have hdraw : Act.FailsOnly Fault.Unchecked (draw r.call >>= fun _ =>
      movePen (fun p => p.moveTo arc.finish) : Act (Canvas (Recording α) α) Unit) :=
    Act.failsOnly_bind (failsOnly_draw _) fun _ => failsOnly_movePen _
  apply failsEarly_of_failsOnly
  split
  · exact hdraw
  · exact Act.failsOnly_bind (failsOnly_moveTo _) fun _ => hdraw

theorem failsEarly_roundedCorner (p1 p2 : Point (Argument α)) (r : Argument α) :
    Act.FailsEarly Fault.OfCheck (roundedCorner p1 p2 r) c := by
  refine Act.failsEarly_bind_ofExcept fun radius => ?_
  split
  · exact Act.failsEarly_of_reads (Act.run_throw _ c)
  refine Act.failsEarly_bind_ofExcept fun q1 => Act.failsEarly_bind_ofExcept fun q2 => ?_
  refine failsEarly_bind_ensureOpenAt q1 ?_
  refine Act.failsOnly_bind Act.failsOnly_get fun d => ?_
  refine Act.failsOnly_bind (Act.failsOnly_ofExcept (Fillet.unchecked_of? _ _ _ _)) fun fillet => ?_
  cases fillet with
  | none => exact failsOnly_drawLines _
  | some f =>
    exact Act.failsOnly_bind (failsOnly_draw _) fun _ =>
      Act.failsOnly_bind (failsOnly_draw _) fun _ => failsOnly_movePen _

end Recordings

section Surfaces

variable {α : Type}

/-- A failed check is no matter of the surface: if the action fails early on recordings, then on
every surface it has not begun, unless it was the surface that failed at one of the calls. -/
theorem Planned.early {β : Type} {p : Fault → Prop}
    {m : ∀ (σ : Type) [Surface σ α], Act (Canvas σ α) β} {c : Bare α} (hm : Planned m c)
    (hearly : Act.FailsEarly p (m (Recording α)) (c.on .empty)) {σ : Type} [Surface σ α] {s : σ}
    {t : Canvas σ α} {e : Fault} (hp : p e) (h : (m σ).run (c.on s) = (.error e, t)) :
    (∀ (τ : Type) [Surface τ α] (u : τ), (m τ).run (c.on u) = (.error e, c.on u)) ∨
      Surface.Raises e s t.surface := by
  obtain ⟨dues, answer, after, hm⟩ := hm
  have hrun := hm σ s
  rw [h] at hrun
  rcases hs : Surface.performAll (dues.map Due.call) s with ⟨w, _ | f, u⟩
  · left
    rw [Plan.on_of_none (p := ⟨dues, fun _ => answer, after⟩) hs] at hrun
    obtain ⟨rfl, -⟩ := Prod.mk.inj hrun
    have hleft : after.on (Recording.empty.recordAll (dues.map Due.call)) = c.on .empty := by
      refine hearly e _ ?_ hp
      rw [hm, Plan.on_of_none (Recording.performAll_eq _ _)]
      rfl
    -- with nothing recorded there was no call to make, and so no surface is asked for one
    have hdues : dues = [] := by
      have hnone := congrArg (fun d => d.surface.backwards) hleft
      simpa [Recording.recordAll, Recording.empty, Canvas.on] using hnone
    have hafter : after = c := congrArg (fun d => d.on ()) hleft
    intro τ _ v
    rw [hm, hdues, hafter]
    rfl
  · right
    obtain ⟨left, hon⟩ := Plan.on_of_some (p := ⟨dues, fun _ => answer, after⟩) hs
    rw [hon] at hrun
    cases hrun
    obtain ⟨before, k, later, v, -, hbefore, hk⟩ := Surface.exists_refused hs
    exact ⟨before, k, w, v, hbefore, hk⟩

theorem failsEarly_quietly {m : Act (Canvas (Recording α) α) Unit} {c : Canvas (Recording α) α}
    (h : Act.FailsEarly Fault.OfCheck m c) : Act.FailsEarly Fault.OfCheck (quietly m) c :=
  Act.failsEarly_bind h fun _ _ _ => onlyFails_ok _

variable [Scalar α]

theorem planned_of_isCommand {op : Op α} (h : op.isCommand) (c : Bare α) :
    Planned (fun _ _ => act op) c := by
  cases op with
  | command k as => exact planned_quietly (planned_command k as c)
  | oval r => exact planned_quietly (planned_oval r c)
  | roundedCorner p1 p2 r => exact planned_quietly (planned_roundedCorner p1 p2 r c)
  | _ => cases h

theorem failsEarly_act {op : Op α} (h : op.isCommand) (c : Canvas (Recording α) α) :
    Act.FailsEarly Fault.OfCheck (act op) c := by
  cases op with
  | command k as => exact failsEarly_quietly (failsEarly_command k as)
  | oval r => exact failsEarly_quietly (failsEarly_oval r)
  | roundedCorner p1 p2 r => exact failsEarly_quietly (failsEarly_roundedCorner p1 p2 r)
  | _ => cases h

/-- A command that fails a check leaves the canvas with its surface as it was, and would have done
so on any other surface. -/
def Untouched {σ : Type} [Surface σ α] (op : Op α) (e : Fault) (c t : Canvas σ α) : Prop :=
  t = c ∧ ∀ (τ : Type) [Surface τ α] (s : τ), step op (c.on s) = (.error e, c.on s)

theorem untouched_or_raises {σ : Type} [Surface σ α] {op : Op α} (hop : op.isCommand)
    {e : Fault} (he : e.OfCheck) {c t : Canvas σ α} (h : step op c = (.error e, t)) :
    Untouched op e c t ∨ Surface.Raises e c.surface t.surface := by
  have hearly := failsEarly_act hop ((c.on ()).on .empty)
  rcases (planned_of_isCommand hop (c.on ())).early hearly he h with hall | hraised
  · refine .inl ⟨?_, hall⟩
    have hc : step op c = (.error e, c) := hall σ c.surface
    rw [h] at hc
    exact congrArg Prod.snd hc
  · exact .inr hraised

end Surfaces

end Canvas

end Linework
