import Linework.Proofs.Canvas.PathFaults
import Linework.Proofs.Canvas.Rows
import Linework.Proofs.Lockstep

/-!
# Masked canvases

A mask changes what a canvas is set to: whether it opens subpaths by itself, its units and its
styles, those that are saved among them. It leaves the surface alone and where the pen is. An
operation that looks at none of this does not tell a canvas from a masked one, and the two keep in
step. Of the drawing operations most look for nothing but whether a subpath may be opened; parts of
an ellipse and rotations also look at the unit.
-/

set_option autoImplicit false

namespace Linework

open Outline (Command Element)

structure Mask where
  autoOpen : Bool → Bool
  unit : AngleUnit → AngleUnit
  style : Style → Style
  style_default : style .default = .default

theorem Mask.id_default : id Style.default = Style.default := rfl

/-- The faults include that no subpath is open wherever a mask allows to open one. -/
def Mask.Fits (stops : Fault → Prop) (g : Mask) : Prop :=
  ∀ b, g.autoOpen b = b ∨ b = false ∧ stops .noOpenSubpath

def Op.mayOpen {α : Type} : Op α → Bool
  | .command .. | .path _ | .roundedCorner .. => true
  | _ => false

def Op.usesUnit {α : Type} : Op α → Bool
  | .oval _ | .rotate _ | .setUnit _ => true
  | _ => false

def Op.usesStyle {α : Type} : Op α → Bool
  | .set _ | .fill _ | .stroke _ | .paint _ => true
  | _ => false

def Snapshot.masked (g : Mask) (n : Snapshot) : Snapshot := ⟨g.unit n.unit, g.style n.style⟩

def Pen.masked {α : Type} (g : Mask) (p : Pen α) : Pen α := { p with unit := g.unit p.unit }

section Pens

variable {α : Type} {g : Mask}

theorem Pen.masked_close (p : Pen α) : (p.masked g).close = p.close.masked g := by
  rcases p with ⟨current, start | z, cubic, quadratic, unit⟩ <;> rfl

theorem Pen.masked_followAll (gs : List (Segment α)) (p : Pen α) :
    (p.masked g).followAll gs = (p.followAll gs).masked g := by
  rcases List.eq_nil_or_concat' gs with rfl | ⟨init, s, rfl⟩
  · rfl
  · rw [Pen.followAll_concat, Pen.followAll_concat]
    cases s <;> rfl

end Pens

namespace Canvas

def masked {σ α : Type} (g : Mask) (c : Canvas σ α) : Canvas σ α :=
  { c with autoOpen := g.autoOpen c.autoOpen, defaultUnit := g.unit c.defaultUnit,
           pen := c.pen.masked g, style := g.style c.style,
           saved := c.saved.map (Snapshot.masked g) }

section Settings

variable {σ α : Type} {g : Mask}

theorem masked_fresh (s : σ) (autoOpen : Bool) (unit : AngleUnit) :
    (fresh s autoOpen unit : Canvas σ α).masked g =
      fresh s (g.autoOpen autoOpen) (g.unit unit) := by
  rw [masked, fresh, fresh, g.style_default]
  rfl

theorem masked_renewed (c : Canvas σ α) : (c.masked g).renewed = c.renewed.masked g :=
  (masked_fresh c.surface c.autoOpen c.defaultUnit).symm

theorem commutes_movePen {f : Pen α → Pen α} (hf : ∀ p : Pen α, f (p.masked g) = (f p).masked g) :
    Act.Commutes (masked g) (movePen f : Act (Canvas σ α) Unit) :=
  Act.commutes_modify fun c => congrArg (fun p => { c.masked g with pen := p }) (hf c.pen)

theorem commutes_requireCurrent :
    Act.Commutes (masked g) (requireCurrent : Act (Canvas σ α) (Point α)) :=
  Act.commutes_get (fun _ => rfl) fun _ => Act.commutes_ofExcept _

theorem commutes_requireControl (curve : Curve) :
    Act.Commutes (masked g) (requireControl curve : Act (Canvas σ α) (Point α)) := by
  refine Act.commutes_get (fun c => ?_) fun c => ?_
  · cases curve <;> rfl
  · split
    · exact Act.commutes_pure _
    · exact Act.commutes_throw _

theorem commutes_lookFor (k : Command) :
    Act.Commutes (masked g) (lookFor k : Act (Canvas σ α) Unit) := by
  have hcurrent : Act.Commutes (masked g)
      (requireCurrent >>= fun _ => pure () : Act (Canvas σ α) Unit) :=
    Act.commutes_bind commutes_requireCurrent fun _ => Act.commutes_pure ()
  rw [lookFor.eq_def]
  split
  · exact Act.commutes_bind (commutes_requireControl _) fun _ => hcurrent
  · split
    · exact Act.commutes_pure ()
    · exact hcurrent

theorem commutes_quietly {m : Act (Canvas σ α) Unit} (h : Act.Commutes (masked g) m) :
    Act.Commutes (masked g) (quietly m) :=
  Act.commutes_bind h fun _ => Act.commutes_pure _

theorem inStep_quietly {stops : Fault → Prop} {m : Act (Canvas σ α) Unit}
    (h : Act.InStep stops (masked g) m) : Act.InStep stops (masked g) (quietly m) :=
  Act.inStep_bind h fun _ => Act.inStep_pure _

end Settings

section Drawing

variable {σ α : Type} [Surface σ α] {g : Mask}

theorem commutes_perform (k : Call α) :
    Act.Commutes (masked g) (perform k : Act (Canvas σ α) (List Warning)) := fun _ => rfl

theorem commutes_draw (k : Call α) :
    Act.Commutes (masked g) (draw k : Act (Canvas σ α) Unit) :=
  Act.commutes_bind (commutes_perform k) fun _ => Act.commutes_pure ()

theorem commutes_drawCalls (calls : List (Call α)) :
    Act.Commutes (masked g) (drawCalls calls : Act (Canvas σ α) Unit) := by
  induction calls with
  | nil => exact Act.commutes_pure ()
  | cons k rest ih => exact Act.commutes_bind (commutes_draw k) fun _ => ih

theorem commutes_drawSegments (gs : List (Segment α)) :
    Act.Commutes (masked g) (drawSegments gs : Act (Canvas σ α) Unit) :=
  Act.commutes_bind (commutes_drawCalls _) fun _ => commutes_movePen (Pen.masked_followAll gs)

theorem commutes_drawLines (zs : List (Point α)) :
    Act.Commutes (masked g) (drawLines zs : Act (Canvas σ α) Unit) := by
  rw [drawLines_eq_segments]
  exact commutes_drawSegments _

theorem commutes_drawTo (k : Call α) (z : Point α) :
    Act.Commutes (masked g)
      (draw k >>= fun _ => movePen fun p => p.moveTo z : Act (Canvas σ α) Unit) :=
  Act.commutes_bind (commutes_draw k) fun _ => commutes_movePen fun _ => rfl

theorem commutes_moveTo (z : Point α) :
    Act.Commutes (masked g) (moveTo z : Act (Canvas σ α) Unit) :=
  Act.commutes_bind (commutes_draw _) fun _ => commutes_movePen fun _ => rfl

theorem commutes_close : Act.Commutes (masked g) (close : Act (Canvas σ α) Unit) :=
  Act.commutes_bind (commutes_draw _) fun _ => commutes_movePen Pen.masked_close

theorem commutes_lifting (k : Call α) :
    Act.Commutes (masked g) (lifting k : Act (Canvas σ α) Unit) :=
  Act.commutes_bind (commutes_draw k) fun _ => commutes_movePen fun _ => rfl

variable {stops : Fault → Prop} (hg : g.Fits stops)

include hg

/-- A canvas that does not open a subpath stops where a masked one may open it. -/
theorem inStep_ensureOpenAt (z : Point α) :
    Act.InStep stops (masked g) (ensureOpenAt z : Act (Canvas σ α) Unit) := by
  intro c
  have hmasked : (c.masked g).autoOpen = g.autoOpen c.autoOpen := rfl
  cases ho : c.pen.isOpen with
  | true =>
    right
    rw [run_ensureOpenAt_of_open ho, run_ensureOpenAt_of_open (c := c.masked g) ho]
  | false =>
    rcases hg c.autoOpen with hopen | ⟨ha, hstops⟩
    · right
      rw [hopen] at hmasked
      cases ha : c.autoOpen with
      | true =>
        have hdraw := commutes_drawCalls (g := g) [Call.moveTo z] { c with pen := c.pen.openAt z }
        rw [run_ensureOpenAt_of_closed ho ha,
          run_ensureOpenAt_of_closed (c := c.masked g) ho (hmasked.trans ha)]
        exact hdraw
      | false =>
        rw [run_ensureOpenAt_of_strict ho ha,
          run_ensureOpenAt_of_strict (c := c.masked g) ho (hmasked.trans ha)]
    · exact .inl ⟨_, c, run_ensureOpenAt_of_strict ho ha, hstops⟩

theorem inStep_lineThrough (zs : List (Point α)) :
    Act.InStep stops (masked g) (lineThrough zs : Act (Canvas σ α) Unit) := by
  cases zs with
  | nil => exact Act.inStep_pure ()
  | cons z rest =>
    exact Act.inStep_bind (inStep_ensureOpenAt hg z) fun _ =>
      Act.inStep_of_commutes (commutes_drawLines _)

end Drawing

section Commands

variable {σ α : Type} [Scalar α] [Surface σ α] {g : Mask}

theorem commutes_axisLine (step : Point α → α → Point α) (as : List (Argument α)) :
    Act.Commutes (masked g) (axisLine step as : Act (Canvas σ α) Unit) := by
  refine Act.commutes_bind commutes_requireCurrent fun z => ?_
  rcases h : Argument.reals as with e | xs
  · rw [drawAlong_of_error step z h]
    exact Act.commutes_bind (commutes_drawCalls _) fun _ => Act.commutes_throw e
  · rw [drawAlong_of_reals step z h]
    exact commutes_drawLines _

def drawOval (isOpen : Bool) (r : OvalRequest α) : Act (Canvas σ α) Unit := do
  let radii ← Act.ofExcept (Argument.point r.radii)
  if Scalar.blt radii.x (Scalar.whole 0) || Scalar.blt radii.y (Scalar.whole 0) then
    throw .negativeRadii
  else
    let o ← Act.ofExcept r.toOval
    let arc ← Act.ofExcept o.toArc
    if isOpen then pure () else moveTo arc.start
    draw r.call
    movePen fun p => p.moveTo arc.finish

theorem oval_eq (r : OvalRequest α) :
    (oval r : Act (Canvas σ α) Unit) =
      (get >>= fun c => Act.ofExcept (r.resolve c.pen.unit) >>= drawOval c.pen.isOpen) := rfl

theorem commutes_drawOval (isOpen : Bool) (r : OvalRequest α) :
    Act.Commutes (masked g) (drawOval isOpen r : Act (Canvas σ α) Unit) := by
  refine Act.commutes_bind (Act.commutes_ofExcept _) fun radii => ?_
  split
  · exact Act.commutes_throw _
  refine Act.commutes_bind (Act.commutes_ofExcept _) fun o => ?_
  refine Act.commutes_bind (Act.commutes_ofExcept _) fun arc => ?_
  cases isOpen with
  | true => exact commutes_drawTo _ _
  | false => exact Act.commutes_bind (commutes_moveTo _) fun _ => commutes_drawTo _ _

variable {stops : Fault → Prop} (hg : g.Fits stops)

include hg

theorem inStep_drawNumbers (k : Command) (xs : List α) :
    Act.InStep stops (masked g) (drawNumbers k xs : Act (Canvas σ α) Unit) := by
  refine Act.inStep_bind ?_ fun _ => Act.inStep_get (fun _ => rfl) fun d =>
    Act.inStep_of_commutes (commutes_drawSegments _)
  rw [openFor.eq_def]
  split
  · split
    · exact inStep_ensureOpenAt hg _
    · exact Act.inStep_pure ()
  · exact Act.inStep_pure ()

theorem inStep_row {k : Command} (hr : k.verb.readsAhead) (hk : k.verb.drawsSegments)
    (as : List (Argument α)) :
    Act.InStep stops (masked g) (carryOut k as : Act (Canvas σ α) Unit) :=
  (Act.inStep_bind (Act.inStep_of_commutes (commutes_lookFor k)) fun _ =>
    Act.inStep_ofExcept fun xs => inStep_drawNumbers hg k xs).congr fun c => run_carryOut hr hk as c

theorem inStep_move (relative : Bool) (as : List (Argument α)) :
    Act.InStep stops (masked g) (move relative as : Act (Canvas σ α) Unit) := by
  match as with
  | [] | [_] => exact Act.inStep_pure ()
  | x :: y :: rest =>
    refine Act.inStep_ofExcept fun z => Act.inStep_get (fun _ => rfl) fun c => ?_
    refine Act.inStep_bind (Act.inStep_of_commutes (commutes_moveTo _)) fun _ => ?_
    split
    · exact Act.inStep_pure ()
    · exact inStep_row hg (k := ⟨.line, relative⟩) rfl rfl rest

theorem inStep_arcSegment (a : ArcTo (Argument α)) (finish : Point α) :
    Act.InStep stops (masked g) (arcSegment a finish : Act (Canvas σ α) Unit) := by
  rw [arcSegment]
  split
  · exact inStep_lineThrough hg [finish]
  refine Act.inStep_bind (Act.inStep_of_commutes commutes_requireCurrent) fun start => ?_
  split
  · exact Act.inStep_of_commutes (commutes_movePen fun _ => rfl)
  · exact Act.inStep_ofExcept fun _ => Act.inStep_ofExcept fun _ =>
      Act.inStep_of_commutes (commutes_drawTo _ _)

theorem inStep_arcs (relative : Bool) (as : List (ArcTo (Argument α))) :
    Act.InStep stops (masked g) (arcs relative as : Act (Canvas σ α) Unit) := by
  rw [arcs_eq_forEach]
  refine Act.inStep_forEach (fun a => ?_) as
  rw [arcFrom]
  split
  · exact Act.inStep_bind (Act.inStep_of_commutes commutes_requireCurrent) fun _ =>
      Act.inStep_ofExcept fun _ => inStep_arcSegment hg a _
  · exact Act.inStep_ofExcept fun finish => inStep_arcSegment hg a finish

theorem inStep_carryOut (k : Command) (as : List (Argument α)) :
    Act.InStep stops (masked g) (carryOut k as : Act (Canvas σ α) Unit) := by
  obtain ⟨v, relative⟩ := k
  cases v with
  | line | cubic | smoothCubic | quadratic | smoothQuadratic => exact inStep_row hg rfl rfl as
  | move => exact inStep_move hg relative as
  | horizontal | vertical => exact Act.inStep_of_commutes (commutes_axisLine _ as)
  | arc => exact inStep_arcs hg relative _
  | close => exact Act.inStep_of_commutes commutes_close

theorem inStep_command (k : Command) (as : List (Argument α)) :
    Act.InStep stops (masked g) (command k as : Act (Canvas σ α) Unit) := by
  rw [command]
  split
  · exact inStep_carryOut hg k as
  · exact Act.inStep_throw _

theorem inStep_path (text : String) :
    Act.InStep stops (masked g) (path text : Act (Canvas σ α) Unit) := by
  refine Act.inStep_ofExcept fun es => ?_
  rw [elements_eq_forEach]
  exact Act.inStep_forEach (fun e => inStep_command hg _ _) es

theorem inStep_roundedCorner (p1 p2 : Point (Argument α)) (r : Argument α) :
    Act.InStep stops (masked g) (roundedCorner p1 p2 r : Act (Canvas σ α) Unit) := by
  refine Act.inStep_ofExcept fun radius => ?_
  split
  · exact Act.inStep_throw _
  refine Act.inStep_ofExcept fun q1 => Act.inStep_ofExcept fun q2 => ?_
  refine Act.inStep_bind (inStep_ensureOpenAt hg q1) fun _ => ?_
  refine Act.inStep_get (fun _ => rfl) fun c => Act.inStep_ofExcept fun fillet => ?_
  cases fillet with
  | none => exact Act.inStep_of_commutes (commutes_drawLines _)
  | some f =>
    exact Act.inStep_of_commutes
      (Act.commutes_bind (commutes_draw _) fun _ => commutes_drawTo _ _)

end Commands

section Steps

variable {σ α : Type} [Surface σ α] {g : Mask}

theorem commutes_save : Act.Commutes (masked g) (save : Act (Canvas σ α) Unit) :=
  Act.commutes_bind (commutes_draw _) fun _ => Act.commutes_modify fun _ => rfl

omit [Surface σ α] in
theorem saved_masked (c : Canvas σ α) :
    (c.masked g).saved = c.saved.map (Snapshot.masked g) := rfl

theorem commutes_restore :
    Act.Commutes (masked g) (restore : Act (Canvas σ α) (List Warning)) := by
  intro c
  rw [restore, Act.run_bind_ok (Act.run_get c), Act.run_bind_ok (Act.run_get (c.masked g)),
    saved_masked]
  cases c.saved with
  | nil => rfl
  | cons n rest => exact Act.run_bind_of_commutes (commutes_draw _) (fun _ _ => rfl) c

theorem commutes_revert :
    Act.Commutes (masked g) (revert : Act (Canvas σ α) (List Warning)) := by
  intro c
  rw [revert, Act.run_bind_ok (Act.run_get c), Act.run_bind_ok (Act.run_get (c.masked g)),
    saved_masked]
  cases c.saved with
  | nil => rfl
  | cons n rest =>
    exact Act.run_bind_of_commutes (commutes_draw _)
      (fun _ => Act.run_bind_of_commutes (commutes_draw _) fun _ _ => rfl) c

theorem commutes_reset : Act.Commutes (masked g) (reset : Act (Canvas σ α) Unit) :=
  Act.commutes_bind (fun _ => rfl) fun _ => Act.commutes_modify masked_renewed

section Unit

variable (hu : ∀ u, g.unit u = u)

include hu

omit [Surface σ α] in
theorem commutes_setUnit (unit : Value) :
    Act.Commutes (masked g) (setUnit unit : Act (Canvas σ α) Unit) := by
  refine Act.commutes_bind (Act.commutes_ofExcept _) fun u => commutes_movePen fun p => ?_
  simp [Pen.masked, hu]

variable [Scalar α]

theorem commutes_rotate (angle : Argument α) :
    Act.Commutes (masked g) (rotate angle : Act (Canvas σ α) Unit) := by
  refine Act.commutes_get (fun c => ?_) fun c =>
    Act.commutes_bind (Act.commutes_ofExcept _) fun turn => commutes_lifting _
  simp [masked, Pen.masked, hu]

theorem commutes_oval (r : OvalRequest α) :
    Act.Commutes (masked g) (oval r : Act (Canvas σ α) Unit) := by
  rw [oval_eq]
  refine Act.commutes_get (fun c => ?_) fun c =>
    Act.commutes_bind (Act.commutes_ofExcept _) fun s => commutes_drawOval _ s
  simp [masked, Pen.masked, hu, Pen.isOpen]

end Unit

section Style

variable (hs : ∀ s, g.style s = s)

include hs

omit [Surface σ α] in
theorem commutes_setStyle (changes : Changes) :
    Act.Commutes (masked g) (setStyle changes : Act (Canvas σ α) Unit) := by
  refine Act.commutes_get (fun c => ?_) fun c =>
    Act.commutes_bind (Act.commutes_ofExcept _) fun s => Act.commutes_modify fun d => ?_
  · simp [masked, hs]
  · simp [masked, hs]

omit [Surface σ α] in
theorem styleFor_masked (changes : Changes) (c : Canvas σ α) :
    styleFor changes (c.masked g) = styleFor changes c := by
  simp [styleFor, masked, hs]

theorem commutes_fill (changes : Changes) :
    Act.Commutes (masked g) (fill changes : Act (Canvas σ α) (List Warning)) := by
  refine Act.commutes_get (fun c => ?_) fun c =>
    Act.commutes_bind (Act.commutes_ofExcept _) fun s => commutes_perform _
  rw [styleFor_masked hs]

theorem commutes_stroke (changes : Changes) :
    Act.Commutes (masked g) (stroke changes : Act (Canvas σ α) (List Warning)) := by
  refine Act.commutes_get (fun c => ?_) fun c =>
    Act.commutes_bind (Act.commutes_ofExcept _) fun s => commutes_perform _
  rw [styleFor_masked hs]

theorem commutes_paint (changes : Changes) :
    Act.Commutes (masked g) (paint changes : Act (Canvas σ α) (List Warning)) := by
  refine Act.commutes_get (fun c => ?_) fun c =>
    Act.commutes_bind (Act.commutes_ofExcept _) fun s =>
      Act.commutes_bind (commutes_perform _) fun _ =>
        Act.commutes_bind (commutes_perform _) fun _ => Act.commutes_pure _
  rw [styleFor_masked hs]

end Style

variable [Scalar α]

section Operations

variable {op : Op α} (hu : op.usesUnit → ∀ u, g.unit u = u) (hs : op.usesStyle → ∀ s, g.style s = s)

include hu hs

/-- An operation that opens no subpath does not tell a canvas from one that is masked where the
operation does not look. -/
theorem commutes_act (ho : op.mayOpen = false) :
    Act.Commutes (masked g) (act op : Act (Canvas σ α) (List Warning)) := by
  cases op with
  | command _ _ | path _ | roundedCorner _ _ _ => cases ho
  | oval r => exact commutes_quietly (commutes_oval (hu rfl) r)
  | beginPath | translate _ | scale _ | transform _ | setTransform _ =>
    exact commutes_quietly (commutes_lifting _)
  | rotate angle => exact commutes_quietly (commutes_rotate (hu rfl) angle)
  | save => exact commutes_quietly commutes_save
  | restore => exact commutes_restore
  | revert => exact commutes_revert
  | setUnit unit => exact commutes_quietly (commutes_setUnit (hu rfl) unit)
  | set changes => exact commutes_quietly (commutes_setStyle (hs rfl) changes)
  | fill changes => exact commutes_fill (hs rfl) changes
  | stroke changes => exact commutes_stroke (hs rfl) changes
  | paint changes => exact commutes_paint (hs rfl) changes
  | reset => exact commutes_quietly commutes_reset

theorem inStep_act {stops : Fault → Prop} (hg : g.Fits stops) :
    Act.InStep stops (masked g) (act op : Act (Canvas σ α) (List Warning)) := by
  cases op with
  | command k as => exact inStep_quietly (inStep_command hg k as)
  | path text => exact inStep_quietly (inStep_path hg text)
  | roundedCorner p1 p2 r => exact inStep_quietly (inStep_roundedCorner hg p1 p2 r)
  | _ => exact Act.inStep_of_commutes (commutes_act hu hs rfl)

/-- A mask that opens no subpaths by itself is in the way of no operation. -/
theorem commutes_act_of_autoOpen (ha : ∀ b, g.autoOpen b = b) :
    Act.Commutes (masked g) (act op : Act (Canvas σ α) (List Warning)) :=
  (inStep_act hu hs fun b => .inl (ha b)).commutes

end Operations

end Steps

end Canvas

end Linework
