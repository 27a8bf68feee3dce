import Linework.Proofs.Canvas.Held
import Linework.Proofs.Canvas.Plan

/-!
# The plans of the operations

Every action of a canvas has a plan, put together from the plans of its parts. So an operation, a
reset aside, asks every surface for the same calls as long as they are answered.
-/

set_option autoImplicit false

namespace Linework

open Canvas (Bare)
open Outline (Command Element)

namespace Canvas

section Planned

variable {α : Type}

theorem planned_moveTo (z : Point α) (c : Bare α) : Planned (fun _ _ => moveTo z) c :=
  planned_bind (planned_draw _ c) fun _ d => planned_movePen _ d

theorem planned_ensureOpenAt (z : Point α) (c : Bare α) :
    Planned (fun _ _ => ensureOpenAt z) c := by
  cases ho : c.pen.isOpen with
  | true => exact (planned_pure () c).congr fun σ _ s => run_ensureOpenAt_of_open ho
  | false =>
    cases ha : c.autoOpen with
    | false => exact (planned_throw _ c).congr fun σ _ s => run_ensureOpenAt_of_strict ho ha
    | true =>
      have hopen : Planned (fun _ _ => movePen (fun p => p.openAt z) >>= fun _ =>
          draw (.moveTo z)) c :=
        planned_bind (planned_movePen _ c) fun _ d => planned_draw _ d
      refine hopen.congr fun σ _ s => ?_
      rw [run_ensureOpenAt_of_closed (c := c.on s) ho ha, drawCalls_singleton]
      rfl

theorem planned_requireCurrent (c : Bare α) : Planned (fun _ _ => requireCurrent) c :=
  planned_get (planned_ofExcept c.pen.requireCurrent c) fun _ _ _ => rfl

theorem planned_lifting (k : Call α) (c : Bare α) : Planned (fun _ _ => lifting k) c :=
  planned_bind (planned_draw k c) fun _ d => planned_movePen _ d

theorem planned_save (c : Bare α) : Planned (fun _ _ => save) c :=
  planned_bind (planned_draw _ c) fun _ _ =>
    planned_modify (fun _ d => { d with saved := d.snapshot :: d.saved }) fun _ _ => rfl

theorem planned_restore (c : Bare α) : Planned (fun _ _ => restore) c := by
  cases hc : c.saved with
  | nil => exact (planned_pure _ c).congr fun σ _ s => run_restore_of_nil hc
  | cons n rest =>
    have hback : Planned (fun σ _ => do
        draw .restore
        modify fun d : Canvas σ α => { d.apply n with saved := rest }
        return ([] : List Warning)) c :=
      planned_bind (planned_draw _ c) fun _ d => planned_bind
        (planned_modify (fun _ d => { d.apply n with saved := rest }) fun _ _ => rfl)
        fun _ e => planned_pure _ e
    refine hback.congr fun σ _ s => ?_
    have hs : (c.on s).saved = n :: rest := hc
    rw [restore, Act.run_bind_ok (Act.run_get _), hs]

theorem planned_revert (c : Bare α) : Planned (fun _ _ => revert) c := by
  cases hc : c.saved with
  | nil => exact (planned_pure _ c).congr fun σ _ s => run_revert_of_nil hc
  | cons n rest =>
    have hback : Planned (fun σ _ => do
        draw .restore
        draw .save
        modify fun d : Canvas σ α => d.apply n
        return ([] : List Warning)) c :=
      planned_bind (planned_draw _ c) fun _ d => planned_bind (planned_draw _ d) fun _ d =>
        planned_bind (planned_modify (fun _ d => d.apply n) fun _ _ => rfl)
          fun _ e => planned_pure _ e
    refine hback.congr fun σ _ s => ?_
    have hs : (c.on s).saved = n :: rest := hc
    rw [revert, Act.run_bind_ok (Act.run_get _), hs]

theorem planned_setUnit (unit : Value) (c : Bare α) : Planned (fun _ _ => setUnit unit) c :=
  planned_bind_ofExcept fun _ => planned_movePen _ c

theorem planned_setStyle (changes : Changes) (c : Bare α) :
    Planned (fun _ _ => setStyle changes) c := by
  have hset : Planned (fun σ _ => do
      let s ← Act.ofExcept (c.style.updated changes)
      modify fun d : Canvas σ α => { d with style := s }) c :=
    planned_bind_ofExcept fun t => planned_modify (fun _ d => { d with style := t }) fun _ _ => rfl
  exact planned_get hset fun _ _ _ => rfl

theorem planned_quietly {m : ∀ (σ : Type) [Surface σ α], Act (Canvas σ α) Unit} {c : Bare α}
    (h : Planned m c) : Planned (fun σ _ => quietly (m σ)) c :=
  planned_bind h fun _ d => planned_pure _ d

theorem planned_drawLines (zs : List (Point α)) (c : Bare α) :
    Planned (fun _ _ => drawLines zs) c := by
  induction zs generalizing c with
  | nil => exact planned_pure () c
  | cons z rest ih =>
    cases rest with
    | nil => exact planned_bind (planned_draw _ c) fun _ d => planned_movePen _ d
    | cons y rest => exact planned_bind (planned_draw _ c) fun _ d => ih d

theorem planned_drawCubics (cs : List (CubicTo α)) (c : Bare α) :
    Planned (fun _ _ => drawCubics cs) c := by
  induction cs generalizing c with
  | nil => exact planned_pure () c
  | cons k rest ih =>
    cases rest with
    | nil => exact planned_bind (planned_draw _ c) fun _ d => planned_movePen _ d
    | cons l rest => exact planned_bind (planned_draw _ c) fun _ d => ih d

theorem planned_drawQuadratics (qs : List (QuadraticTo α)) (c : Bare α) :
    Planned (fun _ _ => drawQuadratics qs) c := by
  induction qs generalizing c with
  | nil => exact planned_pure () c
  | cons q rest ih =>
    cases rest with
    | nil => exact planned_bind (planned_draw _ c) fun _ d => planned_movePen _ d
    | cons l rest => exact planned_bind (planned_draw _ c) fun _ d => ih d

theorem planned_requireControl (curve : Curve) (c : Bare α) :
    Planned (fun _ _ => requireControl curve) c := by
  cases h : c.pen.control curve with
  | none => exact (planned_throw _ c).congr fun σ _ s => run_requireControl_of_none h
  | some z => exact (planned_pure z c).congr fun σ _ s => run_requireControl_of_some h

theorem planned_lineThrough (zs : List (Point α)) (c : Bare α) :
    Planned (fun _ _ => lineThrough zs) c := by
  cases zs with
  | nil => exact planned_pure () c
  | cons z rest => exact planned_bind (planned_ensureOpenAt z c) fun _ d => planned_drawLines _ d

variable [Scalar α]

theorem planned_rotate (angle : Argument α) (c : Bare α) : Planned (fun _ _ => rotate angle) c := by
  have hturn : Planned (fun _ _ => do
      let turn ← Act.ofExcept (c.pen.unit.resolve angle)
      lifting (.rotate turn)) c :=
    planned_bind_ofExcept fun turn => planned_lifting _ c
  exact planned_get hturn fun _ _ _ => rfl

theorem planned_points (as : List (Argument α)) (c : Bare α) :
    Planned (fun _ _ => points as) c :=
  planned_ofExcept _ c

theorem planned_line (relative : Bool) (as : List (Argument α)) (c : Bare α) :
    Planned (fun _ _ => line relative as) c := by
  cases relative with
  | true =>
    exact planned_bind (planned_requireCurrent c) fun _ d =>
      planned_bind (planned_points as d) fun _ e => planned_drawLines _ e
  | false => exact planned_bind (planned_points as c) fun zs d => planned_lineThrough zs d

theorem planned_move (relative : Bool) (as : List (Argument α)) (c : Bare α) :
    Planned (fun _ _ => move relative as) c := by
  match as with
  | [] | [_] => exact planned_pure () c
  | x :: y :: rest =>
    refine planned_bind_ofExcept fun z => ?_
    have hmove : Planned (fun _ _ => do
        moveTo (if relative then c.pen.current.getD Point.zero + z else z)
        if rest.isEmpty then pure () else line relative rest) c := by
      refine planned_bind (planned_moveTo _ c) fun _ d => ?_
      cases rest with
      | nil => exact planned_pure () d
      | cons a rest => exact planned_line relative _ d
    exact planned_get hmove fun _ _ _ => rfl

theorem planned_drawAlong (step : Point α → α → Point α) (p : Point α)
    (as : List (Argument α)) (c : Bare α) : Planned (fun _ _ => drawAlong step p as) c := by
  induction as generalizing p c with
  | nil => exact planned_pure () c
  | cons a rest ih =>
    cases rest with
    | nil => exact planned_bind_ofExcept fun x => planned_drawLines _ c
    | cons b rest =>
      exact planned_bind_ofExcept fun x => planned_bind (planned_draw _ c) fun _ d => ih _ d

theorem planned_axisLine (step : Point α → α → Point α) (as : List (Argument α)) (c : Bare α) :
    Planned (fun _ _ => axisLine step as) c :=
  planned_bind (planned_requireCurrent c) fun p d => planned_drawAlong step p as d

theorem planned_cubic (relative : Bool) (as : List (Argument α)) (c : Bare α) :
    Planned (fun _ _ => cubic relative as) c := by
  cases relative with
  | true =>
    exact planned_bind (planned_requireCurrent c) fun _ d =>
      planned_bind (planned_points as d) fun _ e => planned_drawCubics _ e
  | false =>
    refine planned_bind (planned_points as c) fun zs d => ?_
    cases zs with
    | nil => exact planned_pure () d
    | cons z rest => exact planned_bind (planned_ensureOpenAt z d) fun _ e => planned_drawCubics _ e

theorem planned_quadratic (relative : Bool) (as : List (Argument α)) (c : Bare α) :
    Planned (fun _ _ => quadratic relative as) c := by
  cases relative with
  | true =>
    exact planned_bind (planned_requireCurrent c) fun _ d =>
      planned_bind (planned_points as d) fun _ e => planned_drawQuadratics _ e
  | false =>
    refine planned_bind (planned_points as c) fun zs d => ?_
    cases zs with
    | nil => exact planned_pure () d
    | cons z rest =>
      exact planned_bind (planned_ensureOpenAt z d) fun _ e => planned_drawQuadratics _ e

theorem planned_smoothCubic (relative : Bool) (as : List (Argument α)) (c : Bare α) :
    Planned (fun _ _ => smoothCubic relative as) c :=
  planned_bind (planned_requireControl _ c) fun _ d =>
    planned_bind (planned_requireCurrent d) fun _ d =>
      planned_bind (planned_points as d) fun _ e => planned_drawCubics _ e

theorem planned_smoothQuadratic (relative : Bool) (as : List (Argument α)) (c : Bare α) :
    Planned (fun _ _ => smoothQuadratic relative as) c :=
  planned_bind (planned_requireControl _ c) fun _ d =>
    planned_bind (planned_requireCurrent d) fun _ d =>
      planned_bind (planned_points as d) fun _ e => planned_drawQuadratics _ e

theorem planned_arcSegment (a : ArcTo (Argument α)) (finish : Point α) (c : Bare α) :
    Planned (fun _ _ => arcSegment a finish) c := by
  by_cases hr : a.radii.x.isZero || a.radii.y.isZero
  · refine (planned_lineThrough [finish] c).congr fun σ _ s => ?_
    rw [arcSegment, if_pos hr]
  · have harc : Planned (fun _ _ => do
        let start ← requireCurrent
        if start.beq finish then movePen fun p => p.moveTo finish
        else
          let request ← Act.ofExcept (a.request finish)
          let arc ← Act.ofExcept (request.toArc start true)
          draw (.oval ⟨arc.ellipse, arc.startAngle, arc.endAngle, !request.clockwise⟩)
          movePen fun p => p.moveTo finish) c := by
      refine planned_bind (planned_requireCurrent c) fun start d => ?_
      cases start.beq finish with
      | true => exact planned_movePen _ d
      | false =>
        exact planned_bind_ofExcept fun request => planned_bind_ofExcept fun arc =>
          planned_bind (planned_draw _ d) fun _ e => planned_movePen _ e
    refine harc.congr fun σ _ s => ?_
    rw [arcSegment, if_neg hr]

theorem planned_arcs (relative : Bool) (as : List (ArcTo (Argument α))) (c : Bare α) :
    Planned (fun _ _ => arcs relative as) c := by
  induction as generalizing c with
  | nil => exact planned_pure () c
  | cons a rest ih =>
    cases relative with
    | true =>
      exact planned_bind (planned_requireCurrent c) fun _ d => planned_bind_ofExcept fun _ =>
        planned_bind (planned_arcSegment a _ d) fun _ e => ih e
    | false =>
      exact planned_bind_ofExcept fun z =>
        planned_bind (planned_arcSegment a z c) fun _ d => ih d

theorem planned_carryOut (k : Command) (as : List (Argument α)) (c : Bare α) :
    Planned (fun _ _ => carryOut k as) c := by
  obtain ⟨verb, relative⟩ := k
  cases verb with
  | move => exact planned_move relative as c
  | line => exact planned_line relative as c
  | horizontal => exact planned_axisLine _ as c
  | vertical => exact planned_axisLine _ as c
  | cubic => exact planned_cubic relative as c
  | smoothCubic => exact planned_smoothCubic relative as c
  | quadratic => exact planned_quadratic relative as c
  | smoothQuadratic => exact planned_smoothQuadratic relative as c
  | arc => exact planned_arcs relative _ c
  | close => exact planned_bind (planned_draw _ c) fun _ d => planned_movePen _ d

theorem planned_command (k : Command) (as : List (Argument α)) (c : Bare α) :
    Planned (fun _ _ => command k as) c := by
  by_cases h : accepts k as.length
  · exact (planned_carryOut k as c).congr fun σ _ s => by rw [command, if_pos h]
  · exact (planned_throw _ c).congr fun σ _ s => by rw [command, if_neg h]

theorem planned_elements (es : List (Element α)) (c : Bare α) :
    Planned (fun _ _ => elements es) c := by
  induction es generalizing c with
  | nil => exact planned_pure () c
  | cons e rest ih => exact planned_bind (planned_command _ _ c) fun _ d => ih d

theorem planned_path (text : String) (c : Bare α) : Planned (fun _ _ => path text) c :=
  planned_bind_ofExcept fun es => planned_elements es c

theorem planned_oval (request : OvalRequest α) (c : Bare α) :
    Planned (fun _ _ => oval request) c := by
  refine planned_get (n := fun _ _ => do
    let r ← Act.ofExcept (request.resolve c.pen.unit)
    let radii ← Act.ofExcept (Argument.point r.radii)
    if Scalar.blt radii.x (Scalar.whole 0) || Scalar.blt radii.y (Scalar.whole 0) then
      throw .negativeRadii
    else
      let o ← Act.ofExcept r.toOval
      let arc ← Act.ofExcept o.toArc
      if c.pen.isOpen then pure () else moveTo arc.start
      draw r.call
      movePen fun p => p.moveTo arc.finish) ?_ fun _ _ _ => rfl
  refine planned_bind_ofExcept fun r => planned_bind_ofExcept fun radii => ?_
  split
  · exact planned_throw _ c
  refine planned_bind_ofExcept fun o => planned_bind_ofExcept fun arc => ?_
  have hdraw (d : Bare α) : Planned (fun _ _ => do
      draw r.call
      movePen fun p => p.moveTo arc.finish) d :=
    planned_bind (planned_draw _ d) fun _ e => planned_movePen _ e
  cases c.pen.isOpen with
  | true => exact hdraw c
  | false => exact planned_bind (planned_moveTo _ c) fun _ d => hdraw d

theorem planned_roundedCorner (p1 p2 : Point (Argument α)) (r : Argument α) (c : Bare α) :
    Planned (fun _ _ => roundedCorner p1 p2 r) c := by
  refine planned_bind_ofExcept fun radius => ?_
  split
  · exact planned_throw _ c
  refine planned_bind_ofExcept fun q1 => planned_bind_ofExcept fun q2 => ?_
  refine planned_bind (planned_ensureOpenAt q1 c) fun _ d => ?_
  refine planned_get (n := fun _ _ => do
    let fillet ← Act.ofExcept (Fillet.of? (d.pen.current.getD q1) q1 q2 radius)
    fillet.elim (drawLines [q1]) fun f => do
      draw (.lineTo f.start)
      draw (f.call r)
      movePen fun p => p.moveTo f.finish) ?_ fun _ _ _ =>
    bind_congr fun fillet => by cases fillet <;> rfl
  refine planned_bind_ofExcept fun fillet => ?_
  cases fillet with
  | none => exact planned_drawLines _ d
  | some f =>
    exact planned_bind (planned_draw _ d) fun _ e => planned_bind (planned_draw _ e) fun _ e =>
      planned_movePen _ e

end Planned

section Steps

variable {α : Type}

/-- An outcome without the warnings that only surfaces give. -/
def aside (o : Outcome) : Outcome := o.map (List.filter fun w => w != .nothingToPaint)

/-- An operation has the same plan on all surfaces, and their warnings are all that its outcome
takes from them. -/
def PlannedAside (m : ∀ (σ : Type) [Surface σ α], Act (Canvas σ α) (List Warning))
    (c : Bare α) : Prop :=
  ∃ p : Plan α (List Warning),
    (∀ w, (∀ x ∈ w, x = .nothingToPaint) → aside (p.answer w) = aside (p.answer [])) ∧
      ∀ (σ : Type) [Surface σ α] (s : σ), (m σ).run (c.on s) = p.on s

theorem Planned.toAside {m : ∀ (σ : Type) [Surface σ α], Act (Canvas σ α) (List Warning)}
    {c : Bare α} (h : Planned m c) : PlannedAside m c := by
  obtain ⟨dues, answer, after, h⟩ := h
  exact ⟨⟨dues, fun _ => answer, after⟩, fun _ _ => rfl, h⟩

theorem PlannedAside.congr {m n : ∀ (σ : Type) [Surface σ α], Act (Canvas σ α) (List Warning)}
    {c : Bare α} (h : PlannedAside n c) (he : ∀ (σ : Type) [Surface σ α] (s : σ),
      (m σ).run (c.on s) = (n σ).run (c.on s)) : PlannedAside m c := by
  obtain ⟨p, hp, h⟩ := h
  exact ⟨p, hp, fun σ _ s => (he σ s).trans (h σ s)⟩

theorem aside_of_surface {w : List Warning} (h : ∀ x ∈ w, x = .nothingToPaint) :
    aside (.ok w) = .ok [] := by
  have hw : (w.filter fun x => x != .nothingToPaint) = [] := by
    rw [List.filter_eq_nil_iff]
    intro x hx
    simp [h x hx]
  rw [aside, Except.map, hw]

def performs {σ : Type} [Surface σ α] : List (Call α) → Act (Canvas σ α) (List Warning)
  | [] => pure []
  | k :: rest => do
    let first ← perform k
    let more ← performs rest
    return first ++ more

theorem run_performs (calls : List (Call α)) (c : Bare α) {σ : Type} [Surface σ α] (s : σ) :
    (performs calls).run (c.on s) =
      (⟨calls.map fun k => ⟨k, c⟩, .ok, c⟩ : Plan α (List Warning)).on s := by
  induction calls generalizing s with
  | nil => rfl
  | cons k rest ih =>
    rcases h : (Surface.perform k : Act σ _).run s with ⟨e | w, t⟩
    · rw [performs, Act.run_bind_error (run_perform_error (c := c.on s) h), Plan.on,
        List.map_cons, Plan.attempt_cons_error h]
      rfl
    · have hk : (perform k).run (c.on s) = (.ok w, c.on t) := run_perform_ok h
      rw [performs, Act.run_bind_ok hk, Act.run_bind, ih, Plan.on, Plan.on, List.map_cons,
        Plan.attempt_cons_ok h]
      dsimp only
      rcases Plan.attempt (rest.map fun k => ⟨k, c⟩) t with ⟨v, stop | stop, u⟩ <;> rfl

theorem planned_painting (calls : Style → List (Call α)) (changes : Changes) (c : Bare α) :
    PlannedAside (fun σ _ => do
      let t ← Act.ofExcept ((← get : Canvas σ α).styleFor changes)
      performs (calls t)) c := by
  cases h : c.styleFor changes with
  | error e =>
    refine (planned_throw e c).toAside.congr fun σ _ s => ?_
    have hs : (c.on s).styleFor changes = .error e := h
    rw [Act.run_bind_ok (Act.run_get _), hs]
    rfl
  | ok t =>
    refine ⟨⟨(calls t).map fun k => ⟨k, c⟩, .ok, c⟩, fun w hw => aside_of_surface hw,
      fun σ _ s => ?_⟩
    have hs : (c.on s).styleFor changes = .ok t := h
    rw [Act.run_bind_ok (Act.run_get _), hs, Act.run_bind_ok (Act.run_ofExcept _ _)]
    exact run_performs (calls t) c s

variable [Scalar α]

/-- A reset aside, an operation has one plan for all surfaces. -/
theorem planned_act {op : Op α} (h : op ≠ .reset) (c : Bare α) :
    PlannedAside (fun _ _ => act op) c := by
  cases op with
  | command k as => exact (planned_quietly (planned_command k as c)).toAside
  | path text => exact (planned_quietly (planned_path text c)).toAside
  | oval r => exact (planned_quietly (planned_oval r c)).toAside
  | roundedCorner p1 p2 r => exact (planned_quietly (planned_roundedCorner p1 p2 r c)).toAside
  | beginPath | translate _ | scale _ | transform _ | setTransform _ =>
    exact (planned_quietly (planned_lifting _ c)).toAside
  | rotate angle => exact (planned_quietly (planned_rotate angle c)).toAside
  | save => exact (planned_quietly (planned_save c)).toAside
  | restore => exact (planned_restore c).toAside
  | revert => exact (planned_revert c).toAside
  | setUnit unit => exact (planned_quietly (planned_setUnit unit c)).toAside
  | set changes => exact (planned_quietly (planned_setStyle changes c)).toAside
  | fill changes =>
    refine (planned_painting (fun t => [.fill t]) changes c).congr fun σ _ s => ?_
    simp [act, fill, performs]
  | stroke changes =>
    refine (planned_painting (fun t => [.stroke t]) changes c).congr fun σ _ s => ?_
    simp [act, stroke, performs]
  | paint changes =>
    refine (planned_painting (fun t => [.fill t, .stroke t]) changes c).congr fun σ _ s => ?_
    simp [act, paint, performs]
  | reset => exact absurd rfl h

end Steps

end Canvas

end Linework
