import Linework.Proofs.Canvas.Watched
import Linework.Proofs.Sheet.Calls

/-!
# The frame of a sheet

The size of a sheet and the name of its document play no part in drawing: a sheet in another frame
answers alike and holds the same drawing. So whatever has been drawn, clearing the sheet makes it
the blank one that it was at first.
-/

set_option autoImplicit false

namespace Linework

structure Frame where
  width : String
  height : String
  fileName : String

namespace Sheet

variable {α : Type}

/-- The same drawing in another frame. -/
def framed (g : Frame) (s : Sheet α) : Sheet α :=
  { s with width := g.width, height := g.height, fileName := g.fileName,
           savedTo := .here g.fileName }

variable {g : Frame}

theorem commutes_draw {m : Act (Sheet α) Unit} (h : Act.Commutes (framed g) m) :
    Act.Commutes (framed g) (draw m) :=
  Act.commutes_bind h fun _ => Act.commutes_pure _

theorem commutes_change {f : Sheet α → Sheet α} (hf : ∀ s, f (framed g s) = framed g (f s)) :
    Act.Commutes (framed g) (change f) :=
  Act.commutes_bind (Act.commutes_modify hf) fun _ => Act.commutes_pure _

theorem commutes_paint (ink : Ink) : Act.Commutes (framed g) (paint ink : Act (Sheet α) _) := by
  refine Act.commutes_get (fun _ => rfl) fun s => ?_
  split
  · exact Act.commutes_pure _
  split
  · exact Act.commutes_bind (Act.commutes_modify fun _ => rfl) fun _ => Act.commutes_pure _
  · exact Act.commutes_throw _

theorem restore_framed (s : Sheet α) : (framed g s).restore = framed g s.restore := by
  have hsaved : (framed g s).saved = s.saved := rfl
  rw [restore, restore, hsaved]
  cases s.saved <;> rfl

variable [Scalar α]

theorem commutes_append (part : Part α) : Act.Commutes (framed g) (append part) := by
  rw [append]
  split
  · exact Act.commutes_throw _
  · exact Act.commutes_modify fun _ => rfl

theorem commutes_append_modify (part : Part α) {f : Sheet α → Sheet α}
    (hf : ∀ s, f (framed g s) = framed g (f s)) :
    Act.Commutes (framed g) (append part >>= fun _ => modify f) :=
  Act.commutes_bind (commutes_append part) fun _ => Act.commutes_modify hf

theorem commutes_moveTo (p : Point α) : Act.Commutes (framed g) (moveTo p) :=
  Act.commutes_get (fun _ => rfl) fun _ => commutes_append_modify _ fun _ => rfl

theorem commutes_lineTo (p : Point α) : Act.Commutes (framed g) (lineTo p) := by
  refine Act.commutes_get (fun _ => rfl) fun s => ?_
  dsimp only
  split <;> exact commutes_append_modify _ fun _ => rfl

theorem commutes_ensureCurrent (p : Point α) : Act.Commutes (framed g) (ensureCurrent p) := by
  refine Act.commutes_get (fun _ => rfl) fun s => ?_
  split
  · exact commutes_moveTo p
  · exact Act.commutes_pure _

theorem commutes_cubicTo (first second p : Point α) :
    Act.Commutes (framed g) (cubicTo first second p) :=
  Act.commutes_bind (commutes_ensureCurrent _) fun _ =>
    Act.commutes_get (fun _ => rfl) fun _ => commutes_append_modify _ fun _ => rfl

theorem commutes_quadraticTo (control p : Point α) :
    Act.Commutes (framed g) (quadraticTo control p) :=
  Act.commutes_bind (commutes_ensureCurrent _) fun _ =>
    Act.commutes_get (fun _ => rfl) fun _ => commutes_append_modify _ fun _ => rfl

theorem commutes_joinTo (z : Point α) : Act.Commutes (framed g) (joinTo z) := by
  refine Act.commutes_get (fun _ => rfl) fun s => ?_
  split
  · exact commutes_append_modify _ fun _ => rfl
  refine Act.commutes_bind (Act.commutes_ofExcept _) fun near => ?_
  cases near with
  | true => exact Act.commutes_modify fun _ => rfl
  | false => exact commutes_append_modify _ fun _ => rfl

theorem commutes_drawPieces (image : Option (EllipseImage α)) (pieces : List (EndpointArc α)) :
    Act.Commutes (framed g) (drawPieces image pieces) := by
  induction pieces with
  | nil => exact Act.commutes_pure _
  | cons piece rest ih =>
    refine Act.commutes_get (fun _ => rfl) fun _ => ?_
    refine Act.commutes_bind (commutes_append _) fun _ => ?_
    exact Act.commutes_bind (Act.commutes_modify fun _ => rfl) fun _ => ih

theorem commutes_startCurve (x y : Argument α) : Act.Commutes (framed g) (startCurve x y) := by
  refine Act.commutes_get (fun _ => rfl) fun s => ?_
  split
  · exact Act.commutes_bind (Act.commutes_ofExcept _) fun p => commutes_moveTo p
  · exact Act.commutes_pure _

variable [HasAxes α]

theorem commutes_ellipse (o : Oval α) : Act.Commutes (framed g) (ellipse o) := by
  refine Act.commutes_bind (Act.commutes_ofExcept _) fun ⟨start, pieces⟩ => ?_
  refine Act.commutes_get (fun _ => rfl) fun _ => ?_
  refine Act.commutes_bind (commutes_joinTo _) fun _ => ?_
  split
  · exact Act.commutes_pure _
  refine Act.commutes_get (fun _ => rfl) fun _ => ?_
  exact Act.commutes_bind (Act.commutes_ofExcept _) fun image => commutes_drawPieces image pieces

theorem commutes_performs {p : Primitive} {m : Act (Sheet α) (List Warning)}
    (h : Performs p m) : Act.Commutes (framed g) m := by
  cases h with
  | begins | closes | saves | composes | sets => exact commutes_change fun _ => rfl
  | moves p => exact commutes_draw (commutes_moveTo p)
  | lines p => exact commutes_draw (commutes_lineTo p)
  | cubic x y first second p =>
    exact Act.commutes_bind (commutes_startCurve x y) fun _ =>
      commutes_draw (commutes_cubicTo first second p)
  | quadratic x y control p =>
    exact Act.commutes_bind (commutes_startCurve x y) fun _ =>
      commutes_draw (commutes_quadraticTo control p)
  | curveRefused _ x y e =>
    exact Act.commutes_bind (commutes_startCurve x y) fun _ => Act.commutes_throw e
  | ellipse o => exact commutes_draw (commutes_ellipse o)
  | restores => exact commutes_change restore_framed
  | paints _ ink => exact commutes_paint ink
  | refused _ e => exact Act.commutes_throw e

theorem carries_framed : Surface.Carries (framed g : Sheet α → Sheet α) where
  perform_eq k := commutes_performs (performs_perform k)
  clear_eq _ := rfl

theorem framed_performAll {s : Sheet α} (h : framed g s = s) (calls : List (Call α)) :
    framed g (Surface.performAll calls s).2.2 = (Surface.performAll calls s).2.2 := by
  have hc := carries_framed.performAll_eq (f := framed g) calls s
  rw [h] at hc
  exact (congrArg (fun p => p.2.2) hc).symm

omit [HasAxes α] in
theorem cleared_of_framed {s : Sheet α} (h : framed g s = s) :
    s.cleared = blank g.width g.height g.fileName := by
  rw [← h]
  rfl

end Sheet

end Linework
