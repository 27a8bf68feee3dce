import Linework.Proofs.Canvas.Step
import Linework.Proofs.Outline.Slices

/-!
# Which curve a smooth one may follow

The pen keeps the last control point of a curve until it is moved otherwise. An operation that
draws or changes the coordinates settles by its kind alone whether there is one afterwards, and of
which sort, provided that it does not fail; any other leaves the control points as they are.
-/

set_option autoImplicit false

namespace Linework

open Outline (Command Element Verb)

section Groups

variable {α : Type}

theorem Argument.length_reals [Scalar α] {as : List (Argument α)} {xs : List α}
    (h : reals as = .ok xs) : xs.length = as.length := by
  induction as generalizing xs with
  | nil =>
    cases h
    rfl
  | cons a rest ih =>
    obtain ⟨y, ys, -, hr, rfl⟩ := reals_cons_ok h
    rw [List.length_cons, List.length_cons, ih hr]

theorem ArcTo.group_ne_nil {as : List (Argument α)} (h : 7 ≤ as.length) : group as ≠ [] := by
  match as, h with
  | _ :: _ :: _ :: _ :: _ :: _ :: _ :: _, _ => exact List.cons_ne_nil _ _

variable [Scalar α]

theorem length_displaced (p : Point α) (zs : List (Point α)) :
    (displaced p zs).length = zs.length := by
  induction zs generalizing p with
  | nil => rfl
  | cons z rest ih => rw [displaced, List.length_cons, List.length_cons, ih]

theorem CubicTo.length_resolve (p : Point α) (cs : List (CubicTo α)) :
    (resolve p cs).length = cs.length := by
  induction cs generalizing p with
  | nil => rfl
  | cons c rest ih => rw [resolve, List.length_cons, List.length_cons, ih]

theorem QuadraticTo.length_resolve (p : Point α) (qs : List (QuadraticTo α)) :
    (resolve p qs).length = qs.length := by
  induction qs generalizing p with
  | nil => rfl
  | cons q rest ih => rw [resolve, List.length_cons, List.length_cons, ih]

theorem length_smoothCubics (relative : Bool) (current control : Point α)
    (qs : List (QuadraticTo α)) :
    (smoothCubics relative current control qs).length = qs.length := by
  induction qs generalizing current control with
  | nil => rfl
  | cons q rest ih => rw [smoothCubics, List.length_cons, List.length_cons, ih]

theorem length_smoothQuadratics (relative : Bool) (current control : Point α)
    (zs : List (Point α)) :
    (smoothQuadratics relative current control zs).length = zs.length := by
  induction zs generalizing current control with
  | nil => rfl
  | cons z rest ih => rw [smoothQuadratics, List.length_cons, List.length_cons, ih]

end Groups

namespace Pen

variable {α : Type}

/-- A pen with a control point of one sort only, or of none. -/
def Bends (curve? : Option Curve) (p : Pen α) : Prop :=
  ∀ curve, p.control curve ≠ none ↔ curve? = some curve

theorem bends_put (p : Pen α) (z : Option (Point α)) : (p.put z).Bends none := by
  intro curve
  cases curve <;> simp [put, control]

theorem bends_moveTo (p : Pen α) (z : Point α) : (p.moveTo z).Bends none :=
  bends_put p (some z)

theorem bends_openAt (p : Pen α) (z : Point α) : (p.openAt z).Bends none :=
  bends_put p (some z)

theorem bends_fresh (unit : AngleUnit) : (fresh unit : Pen α).Bends none := by
  intro curve
  cases curve <;> simp [fresh, control]

theorem bends_close (p : Pen α) : p.close.Bends none := by
  cases hs : p.start with
  | none =>
    rw [close_of_none hs]
    exact bends_fresh _
  | some z =>
    rw [close_of_start hs]
    exact bends_moveTo p z

theorem bends_curveTo (p : Pen α) (curve : Curve) (k z : Point α) :
    (p.curveTo curve k z).Bends (some curve) := by
  intro other
  cases curve <;> cases other <;> simp [curveTo, moveTo, put, control]

end Pen

def Outline.Verb.curve? : Verb → Option Curve
  | .cubic | .smoothCubic => some .cubic
  | .quadratic | .smoothQuadratic => some .quadratic
  | _ => none

/-- The sort of curve that is left to be followed by an operation, if it settles that at all. A
path does so by its last element. -/
def Op.bend? {α : Type} [Scalar α] : Op α → Option (Option Curve)
  | .command c _ => some c.verb.curve?
  | .path text =>
    match (Outline.parse text : Except Fault (List (Element α))) with
    | .ok es => es.getLast?.map fun e => e.command.verb.curve?
    | .error _ => none
  | .oval _ | .roundedCorner .. | .beginPath | .translate _ | .scale _ | .rotate _ | .transform _
  | .setTransform _ | .reset => some none
  | .save | .restore | .revert | .setUnit _ | .set _ | .fill _ | .stroke _ | .paint _ => none

namespace Canvas

def Bends {σ α : Type} (curve? : Option Curve) (c : Canvas σ α) : Prop := c.pen.Bends curve?

section Actions

variable {σ α : Type} {p : Canvas σ α → Prop} {x : Option Curve}

theorem bends_movePen {f : Pen α → Pen α} (hf : ∀ q, (f q).Bends x) :
    Act.Ensures p (Bends x) (movePen f : Act (Canvas σ α) Unit) :=
  Act.ensures_modify fun c _ => hf c.pen

variable [Surface σ α]

theorem bends_draw_movePen (k : Call α) {f : Pen α → Pen α} (hf : ∀ q, (f q).Bends x) :
    Act.Ensures p (Bends x) (draw k >>= fun _ => movePen f : Act (Canvas σ α) Unit) :=
  Act.ensures_bind (Act.ensures_true _) fun _ => bends_movePen hf

theorem bends_drawThen (calls : List (Call α)) {f : Pen α → Pen α} (hf : ∀ q, (f q).Bends x) :
    Act.Ensures p (Bends x) (drawThen calls f : Act (Canvas σ α) Unit) := by
  intro c _ t _ h
  rw [Bends, pen_of_drawThen h]
  exact hf c.pen

theorem bends_drawLines {zs : List (Point α)} (h : zs ≠ []) :
    Act.Ensures p (Bends none) (drawLines zs : Act (Canvas σ α) Unit) := by
  obtain rfl | ⟨init, z, rfl⟩ := List.eq_nil_or_concat' zs
  · exact absurd rfl h
  · rw [drawLines_concat]
    exact bends_drawThen _ fun q => q.bends_moveTo z

theorem bends_drawCubics {cs : List (CubicTo α)} (h : cs ≠ []) :
    Act.Ensures p (Bends (some .cubic)) (drawCubics cs : Act (Canvas σ α) Unit) := by
  obtain rfl | ⟨init, c, rfl⟩ := List.eq_nil_or_concat' cs
  · exact absurd rfl h
  · rw [drawCubics_concat]
    exact bends_drawThen _ fun q => q.bends_curveTo _ _ _

theorem bends_drawQuadratics {qs : List (QuadraticTo α)} (h : qs ≠ []) :
    Act.Ensures p (Bends (some .quadratic)) (drawQuadratics qs : Act (Canvas σ α) Unit) := by
  obtain rfl | ⟨init, q, rfl⟩ := List.eq_nil_or_concat' qs
  · exact absurd rfl h
  · rw [drawQuadratics_concat]
    exact bends_drawThen _ fun q => q.bends_curveTo _ _ _

theorem bends_lineThrough {zs : List (Point α)} (h : zs ≠ []) :
    Act.Ensures p (Bends none) (lineThrough zs : Act (Canvas σ α) Unit) := by
  cases zs with
  | nil => exact absurd rfl h
  | cons z rest => exact Act.ensures_bind (Act.ensures_true _) fun _ => bends_drawLines h

theorem bends_lifting (k : Call α) :
    Act.Ensures p (Bends none) (lifting k : Act (Canvas σ α) Unit) :=
  bends_draw_movePen k fun q => Pen.bends_fresh q.unit

end Actions

section Commands

variable {σ α : Type} [Scalar α] {p : Canvas σ α → Prop}

theorem ensures_bind_points {as : List (Argument α)} {q : Canvas σ α → Prop}
    {f : List (Point α) → Act (Canvas σ α) Unit}
    (hf : ∀ zs, zs.length = as.length / 2 → Act.Ensures p q (f zs)) :
    Act.Ensures p q (points as >>= f) := by
  cases h : Argument.reals as with
  | error e =>
    rw [points, h]
    exact Act.ensures_throw e
  | ok xs =>
    rw [points_of_reals h, pure_bind]
    exact hf _ (by rw [Point.length_pairs, Argument.length_reals h])

variable [Surface σ α]

theorem bends_line {relative : Bool} {as : List (Argument α)} (h : 2 ≤ as.length) :
    Act.Ensures p (Bends none) (line relative as : Act (Canvas σ α) Unit) := by
  cases relative with
  | true =>
    refine Act.ensures_bind (Act.ensures_true _) fun z => ensures_bind_points fun zs hz => ?_
    apply bends_drawLines
    apply List.ne_nil_of_length_pos
    rw [length_displaced]
    omega
  | false =>
    refine ensures_bind_points fun zs hz => bends_lineThrough ?_
    apply List.ne_nil_of_length_pos
    omega

theorem bends_move {relative : Bool} {as : List (Argument α)} (h : 2 ≤ as.length)
    (heven : as.length % 2 = 0) :
    Act.Ensures p (Bends none) (move relative as : Act (Canvas σ α) Unit) := by
  match as, h with
  | x :: y :: rest, _ =>
    refine Act.ensures_bind (Act.ensures_true _) fun z => ?_
    refine Act.ensures_bind (Act.ensures_true _) fun c => ?_
    refine Act.ensures_bind (bends_draw_movePen _ fun q => q.bends_openAt _) fun _ => ?_
    split
    · exact Act.ensures_pure _
    · next hr =>
      apply bends_line
      have hpos : rest.length ≠ 0 := by simpa using hr
      simp only [List.length_cons] at heven
      omega

theorem bends_axisLine {step : Point α → α → Point α} {as : List (Argument α)}
    (h : 1 ≤ as.length) :
    Act.Ensures p (Bends none) (axisLine step as : Act (Canvas σ α) Unit) := by
  refine Act.ensures_bind (Act.ensures_true _) fun z => ?_
  cases hr : Argument.reals as with
  | error e =>
    rw [drawAlong_of_error step z hr]
    exact Act.ensures_bind (Act.ensures_true _) fun _ => Act.ensures_throw e
  | ok xs =>
    rw [drawAlong_of_reals step z hr]
    apply bends_drawLines
    have hlen := Argument.length_reals hr
    match xs, hlen with
    | [], hlen => simp [← hlen] at h
    | x :: rest, _ => exact List.cons_ne_nil _ _

theorem bends_cubic {relative : Bool} {as : List (Argument α)} (h : 6 ≤ as.length) :
    Act.Ensures p (Bends (some .cubic)) (cubic relative as : Act (Canvas σ α) Unit) := by
  cases relative with
  | true =>
    refine Act.ensures_bind (Act.ensures_true _) fun z => ensures_bind_points fun zs hz => ?_
    apply bends_drawCubics
    apply List.ne_nil_of_length_pos
    rw [CubicTo.length_resolve, CubicTo.length_group]
    omega
  | false =>
    refine ensures_bind_points fun zs hz => ?_
    match zs, hz with
    | [], hz => simp at hz; omega
    | z :: rest, hz =>
      refine Act.ensures_bind (Act.ensures_true _) fun _ => bends_drawCubics ?_
      apply List.ne_nil_of_length_pos
      rw [CubicTo.length_group]
      omega

theorem bends_quadratic {relative : Bool} {as : List (Argument α)} (h : 4 ≤ as.length) :
    Act.Ensures p (Bends (some .quadratic)) (quadratic relative as : Act (Canvas σ α) Unit) := by
  cases relative with
  | true =>
    refine Act.ensures_bind (Act.ensures_true _) fun z => ensures_bind_points fun zs hz => ?_
    apply bends_drawQuadratics
    apply List.ne_nil_of_length_pos
    rw [QuadraticTo.length_resolve, QuadraticTo.length_group]
    omega
  | false =>
    refine ensures_bind_points fun zs hz => ?_
    match zs, hz with
    | [], hz => simp at hz; omega
    | z :: rest, hz =>
      refine Act.ensures_bind (Act.ensures_true _) fun _ => bends_drawQuadratics ?_
      apply List.ne_nil_of_length_pos
      rw [QuadraticTo.length_group]
      omega

theorem bends_smoothCubic {relative : Bool} {as : List (Argument α)} (h : 4 ≤ as.length) :
    Act.Ensures p (Bends (some .cubic)) (smoothCubic relative as : Act (Canvas σ α) Unit) := by
  refine Act.ensures_bind (Act.ensures_true _) fun k => ?_
  refine Act.ensures_bind (Act.ensures_true _) fun z => ensures_bind_points fun zs hz => ?_
  apply bends_drawCubics
  apply List.ne_nil_of_length_pos
  rw [length_smoothCubics, QuadraticTo.length_group]
  omega

theorem bends_smoothQuadratic {relative : Bool} {as : List (Argument α)}
    (h : 2 ≤ as.length) :
    Act.Ensures p (Bends (some .quadratic))
      (smoothQuadratic relative as : Act (Canvas σ α) Unit) := by
  refine Act.ensures_bind (Act.ensures_true _) fun k => ?_
  refine Act.ensures_bind (Act.ensures_true _) fun z => ensures_bind_points fun zs hz => ?_
  apply bends_drawQuadratics
  apply List.ne_nil_of_length_pos
  rw [length_smoothQuadratics]
  omega

theorem bends_arcSegment (a : ArcTo (Argument α)) (finish : Point α) :
    Act.Ensures p (Bends none) (arcSegment a finish : Act (Canvas σ α) Unit) := by
  rw [arcSegment]
  split
  · exact bends_lineThrough (List.cons_ne_nil _ _)
  refine Act.ensures_bind (Act.ensures_true _) fun start => ?_
  split
  · exact bends_movePen fun q => q.bends_moveTo finish
  refine Act.ensures_bind (Act.ensures_true _) fun request => ?_
  refine Act.ensures_bind (Act.ensures_true _) fun arc => ?_
  exact bends_draw_movePen _ fun q => q.bends_moveTo finish

theorem bends_arcs {relative : Bool} {as : List (ArcTo (Argument α))} (h : as ≠ []) :
    Act.Ensures p (Bends none) (arcs relative as : Act (Canvas σ α) Unit) := by
  induction as generalizing p with
  | nil => exact absurd rfl h
  | cons a rest ih =>
    have hrest : Act.Ensures (Bends none) (Bends none)
        (arcs relative rest : Act (Canvas σ α) Unit) := by
      cases rest with
      | nil => exact Act.ensures_pure _
      | cons b rest => exact ih (List.cons_ne_nil _ _)
    cases relative with
    | true =>
      refine Act.ensures_bind (Act.ensures_true _) fun z => ?_
      refine Act.ensures_bind (Act.ensures_true _) fun d => ?_
      exact Act.ensures_bind (bends_arcSegment a _) fun _ => hrest
    | false =>
      refine Act.ensures_bind (Act.ensures_true _) fun z => ?_
      exact Act.ensures_bind (bends_arcSegment a z) fun _ => hrest

theorem bends_carryOut {k : Command} {as : List (Argument α)} (h : accepts k as.length) :
    Act.Ensures p (Bends k.verb.curve?) (carryOut k as : Act (Canvas σ α) Unit) := by
  have hle := groupSize_le_of_accepts h
  obtain ⟨verb, relative⟩ := k
  cases verb with
  | move => exact bends_move hle (groups_of_accepts (by decide) h)
  | line => exact bends_line hle
  | horizontal => exact bends_axisLine hle
  | vertical => exact bends_axisLine hle
  | cubic => exact bends_cubic hle
  | smoothCubic => exact bends_smoothCubic hle
  | quadratic => exact bends_quadratic hle
  | smoothQuadratic => exact bends_smoothQuadratic hle
  | arc => exact bends_arcs (ArcTo.group_ne_nil hle)
  | close => exact bends_draw_movePen _ fun q => q.bends_close

theorem bends_command (k : Command) (as : List (Argument α)) :
    Act.Ensures p (Bends k.verb.curve?) (command k as : Act (Canvas σ α) Unit) := by
  rw [command]
  split
  · next h => exact bends_carryOut h
  · exact Act.ensures_throw _

theorem bends_elements (es : List (Element α)) (x : Option Curve) :
    Act.Ensures (Bends x) (Bends ((es.getLast?.map fun e => e.command.verb.curve?).getD x))
      (elements es : Act (Canvas σ α) Unit) := by
  induction es generalizing x with
  | nil => exact Act.ensures_pure _
  | cons e rest ih =>
    have hlast : (((e :: rest).getLast?.map fun e => e.command.verb.curve?).getD x) =
        ((rest.getLast?.map fun e => e.command.verb.curve?).getD e.command.verb.curve?) := by
      rw [List.getLast?_cons]
      cases rest.getLast? <;> rfl
    rw [hlast]
    exact Act.ensures_bind (bends_command _ _) fun _ => ih _

theorem bends_oval (request : OvalRequest α) :
    Act.Ensures p (Bends none) (oval request : Act (Canvas σ α) Unit) := by
  refine Act.ensures_bind (Act.ensures_true _) fun c => ?_
  refine Act.ensures_bind (Act.ensures_true _) fun r => ?_
  refine Act.ensures_bind (Act.ensures_true _) fun radii => ?_
  split
  · exact Act.ensures_throw _
  refine Act.ensures_bind (Act.ensures_true _) fun o => ?_
  refine Act.ensures_bind (Act.ensures_true _) fun arc => ?_
  split
  · exact bends_draw_movePen _ fun q => q.bends_moveTo _
  · exact Act.ensures_bind (Act.ensures_true _) fun _ =>
      bends_draw_movePen _ fun q => q.bends_moveTo _

theorem bends_roundedCorner (p1 p2 : Point (Argument α)) (r : Argument α) :
    Act.Ensures p (Bends none) (roundedCorner p1 p2 r : Act (Canvas σ α) Unit) := by
  refine Act.ensures_bind (Act.ensures_true _) fun radius => ?_
  split
  · exact Act.ensures_throw _
  refine Act.ensures_bind (Act.ensures_true _) fun q1 => ?_
  refine Act.ensures_bind (Act.ensures_true _) fun q2 => ?_
  refine Act.ensures_bind (Act.ensures_true _) fun _ => ?_
  refine Act.ensures_bind (Act.ensures_true _) fun c => ?_
  refine Act.ensures_bind (Act.ensures_true _) fun fillet => ?_
  cases fillet with
  | none => exact bends_drawLines (List.cons_ne_nil _ _)
  | some f =>
    exact Act.ensures_bind (Act.ensures_true _) fun _ =>
      bends_draw_movePen _ fun q => q.bends_moveTo _

end Commands

section Quiet

variable {σ α : Type}

/-- What a canvas still has to be followed. -/
def controls (c : Canvas σ α) : Curve → Option (Point α) := c.pen.control

theorem controls_withUnit (u : AngleUnit) (c : Canvas σ α) :
    controls { c with pen := { c.pen with unit := u } } = c.controls := by
  funext curve
  cases curve <;> rfl

theorem controls_apply (s : Snapshot) (c : Canvas σ α) : (c.apply s).controls = c.controls := by
  funext curve
  cases curve <;> rfl

variable [Surface σ α]

theorem controls_perform (k : Call α) :
    Act.Leaves controls (perform k : Act (Canvas σ α) (List Warning)) := fun _ => rfl

theorem controls_draw (k : Call α) : Act.Leaves controls (draw k : Act (Canvas σ α) Unit) :=
  Act.leaves_bind (controls_perform k) fun _ => Act.leaves_pure _

theorem controls_save : Act.Leaves controls (save : Act (Canvas σ α) Unit) :=
  Act.leaves_bind (controls_draw _) fun _ => Act.leaves_modify fun _ => rfl

theorem controls_restore : Act.Leaves controls (restore : Act (Canvas σ α) (List Warning)) := by
  refine Act.leaves_bind Act.leaves_get fun c => ?_
  split
  · exact Act.leaves_pure _
  · refine Act.leaves_bind (controls_draw _) fun _ => ?_
    exact Act.leaves_bind (Act.leaves_modify fun d => controls_apply _ d) fun _ =>
      Act.leaves_pure _

theorem controls_revert : Act.Leaves controls (revert : Act (Canvas σ α) (List Warning)) := by
  refine Act.leaves_bind Act.leaves_get fun c => ?_
  split
  · exact Act.leaves_pure _
  · refine Act.leaves_bind (controls_draw _) fun _ => ?_
    refine Act.leaves_bind (controls_draw _) fun _ => ?_
    exact Act.leaves_bind (Act.leaves_modify fun d => controls_apply _ d) fun _ =>
      Act.leaves_pure _

end Quiet

section Runs

variable {σ α : Type} [Scalar α] [Surface σ α] {x : Option Curve}

theorem bends_act (op : Op α) (x : Option Curve) :
    Act.Ensures (Bends x) (Bends (op.bend?.getD x))
      (act op : Act (Canvas σ α) (List Warning)) := by
  have hleaves {m : Act (Canvas σ α) (List Warning)} (h : Act.Leaves controls m) :
      Act.Ensures (Bends x) (Bends x) m := by
    intro c w t hc hm curve
    have hkeep : t.controls curve = c.controls curve := by
      have hs := h c
      rw [hm] at hs
      rw [← hs]
    exact (not_congr (Eq.congr_left hkeep)).trans (hc curve)
  cases op with
  | command k as => exact ensures_quietly (bends_command k as)
  | path text =>
    refine ensures_quietly ?_
    rw [path, Op.bend?]
    split
    · next es he =>
      rw [he]
      exact bends_elements es x
    · next e he =>
      rw [he]
      exact Act.ensures_throw e
  | oval r => exact ensures_quietly (bends_oval r)
  | roundedCorner p1 p2 r => exact ensures_quietly (bends_roundedCorner p1 p2 r)
  | beginPath | translate _ | scale _ | transform _ | setTransform _ =>
    exact ensures_quietly (bends_lifting _)
  | rotate angle =>
    exact ensures_quietly (Act.ensures_bind (Act.ensures_true _) fun _ =>
      Act.ensures_bind (Act.ensures_true _) fun _ => bends_lifting _)
  | reset =>
    exact ensures_quietly (Act.ensures_bind (Act.ensures_true _) fun _ =>
      Act.ensures_modify fun c _ => Pen.bends_fresh c.defaultUnit)
  | save => exact hleaves (leaves_quietly controls_save)
  | restore => exact hleaves controls_restore
  | revert => exact hleaves controls_revert
  | setUnit unit => exact hleaves (leaves_quietly (leaves_setUnit controls_withUnit unit))
  | set changes => exact hleaves (leaves_quietly (leaves_setStyle (fun _ _ => rfl) changes))
  | fill changes => exact hleaves (leaves_fill (fun _ => controls_perform _) changes)
  | stroke changes => exact hleaves (leaves_stroke (fun _ => controls_perform _) changes)
  | paint changes =>
    exact hleaves (leaves_paint (fun _ => controls_perform _) (fun _ => controls_perform _) changes)

def Succeeds (ops : List (Op α)) (c : Canvas σ α) : Prop :=
  ∀ o ∈ (run ops c).1, ∃ w, o = .ok w

theorem succeeds_cons {op : Op α} {rest : List (Op α)} {c : Canvas σ α}
    (h : Succeeds (op :: rest) c) :
    (∃ w, step op c = (.ok w, (step op c).2)) ∧ Succeeds rest (step op c).2 := by
  obtain ⟨w, hw⟩ := h (step op c).1 List.mem_cons_self
  exact ⟨⟨w, Prod.ext hw rfl⟩, fun o ho => h o (List.mem_cons_of_mem _ ho)⟩

/-- After a run in which nothing fails the latest operation that settles it says which curve may
be followed. -/
theorem bends_run {ops : List (Op α)} {c : Canvas σ α} (hc : c.Bends x) (h : Succeeds ops c) :
    (run ops c).2.Bends ((ops.filterMap Op.bend?).getLast?.getD x) := by
  induction ops generalizing c x with
  | nil => exact hc
  | cons op rest ih =>
    obtain ⟨⟨w, hstep⟩, hrest⟩ := succeeds_cons h
    have hnext := ih (bends_act op x c w _ hc hstep) hrest
    rw [run_cons, List.filterMap_cons]
    cases hop : op.bend? with
    | none =>
      rw [hop] at hnext
      exact hnext
    | some y =>
      rw [hop] at hnext
      simp only [List.getLast?_cons]
      cases hl : (rest.filterMap Op.bend?).getLast? <;> rw [hl] at hnext <;> exact hnext

end Runs

end Canvas

end Linework
