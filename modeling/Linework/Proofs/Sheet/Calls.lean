import Linework.Proofs.Act
import Linework.Proofs.Canvas.Calls
import Linework.Sheet.Basic

/-!
# What calls do to a sheet, and what they leave alone

Once its arguments are read, a call comes to one of a few changes of the sheet. Drawing changes
nothing but the path, painting adds to what was painted, and only saving and restoring touch what
is saved. This holds of calls that fail, too.
-/

set_option autoImplicit false

namespace Linework

namespace Sheet

section Paths

variable {α : Type}

/-- An action that changes nothing but the path: without it, the sheet is the same. -/
abbrev OnlyPath {β : Type} (m : Act (Sheet α) β) : Prop := Act.Leaves beginPath m

theorem saved_onlyPath {β : Type} {m : Act (Sheet α) β} (h : OnlyPath m) :
    Act.Leaves Sheet.saved m := h.part Sheet.saved

theorem onlyPath_draw {m : Act (Sheet α) Unit} (hm : OnlyPath m) : OnlyPath (draw m) :=
  Act.leaves_bind hm fun _ => Act.leaves_pure _

variable [Scalar α]

theorem onlyPath_append (part : Part α) : OnlyPath (append part) := by
  rw [append]
  split
  · exact Act.leaves_throw _
  · exact Act.leaves_modify fun _ => rfl

theorem onlyPath_append_modify (part : Part α) {f : Sheet α → Sheet α}
    (hf : ∀ s, (f s).beginPath = s.beginPath) :
    OnlyPath (append part >>= fun _ => modify f) :=
  Act.leaves_bind (onlyPath_append part) fun _ => Act.leaves_modify hf

theorem onlyPath_moveTo (p : Point α) : OnlyPath (moveTo p) :=
  Act.leaves_bind Act.leaves_get fun _ => onlyPath_append_modify _ fun _ => rfl

theorem onlyPath_lineTo (p : Point α) : OnlyPath (lineTo p) := by
  refine Act.leaves_bind Act.leaves_get fun s => ?_
  dsimp only
  split
  · exact onlyPath_append_modify _ fun _ => rfl
  · exact onlyPath_append_modify _ fun _ => rfl

theorem onlyPath_ensureCurrent (p : Point α) : OnlyPath (ensureCurrent p) := by
  refine Act.leaves_bind Act.leaves_get fun s => ?_
  split
  · exact onlyPath_moveTo p
  · exact Act.leaves_pure _

theorem onlyPath_cubicTo (first second p : Point α) : OnlyPath (cubicTo first second p) :=
  Act.leaves_bind (onlyPath_ensureCurrent _) fun _ =>
    Act.leaves_bind Act.leaves_get fun _ => onlyPath_append_modify _ fun _ => rfl

theorem onlyPath_quadraticTo (control p : Point α) : OnlyPath (quadraticTo control p) :=
  Act.leaves_bind (onlyPath_ensureCurrent _) fun _ =>
    Act.leaves_bind Act.leaves_get fun _ => onlyPath_append_modify _ fun _ => rfl

theorem onlyPath_joinTo (z : Point α) : OnlyPath (joinTo z) := by
  refine Act.leaves_bind Act.leaves_get fun s => ?_
  split
  · exact onlyPath_append_modify _ fun _ => rfl
  refine Act.leaves_bind (Act.leaves_ofExcept _) fun near => ?_
  cases near with
  | true => exact Act.leaves_modify fun _ => rfl
  | false => exact onlyPath_append_modify _ fun _ => rfl

theorem onlyPath_drawPieces (image : Option (EllipseImage α)) (pieces : List (EndpointArc α)) :
    OnlyPath (drawPieces image pieces) := by
  induction pieces with
  | nil => exact Act.leaves_pure _
  | cons piece rest ih =>
    refine Act.leaves_bind Act.leaves_get fun _ => ?_
    refine Act.leaves_bind (onlyPath_append _) fun _ => ?_
    exact Act.leaves_bind (Act.leaves_modify fun _ => rfl) fun _ => ih

theorem onlyPath_startCurve (x y : Argument α) : OnlyPath (startCurve x y) := by
  refine Act.leaves_bind Act.leaves_get fun s => ?_
  split
  · exact Act.leaves_bind (Act.leaves_ofExcept _) fun p => onlyPath_moveTo p
  · exact Act.leaves_pure _

variable [HasAxes α]

theorem onlyPath_ellipse (o : Oval α) : OnlyPath (ellipse o) := by
  refine Act.leaves_bind (Act.leaves_ofExcept _) fun ⟨start, pieces⟩ => ?_
  refine Act.leaves_bind Act.leaves_get fun _ => ?_
  refine Act.leaves_bind (onlyPath_joinTo _) fun _ => ?_
  split
  · exact Act.leaves_pure _
  refine Act.leaves_bind Act.leaves_get fun _ => ?_
  exact Act.leaves_bind (Act.leaves_ofExcept _) fun image => onlyPath_drawPieces image pieces

end Paths

section Calls

variable {α : Type}

theorem saved_change {f : Sheet α → Sheet α} (hf : ∀ s, (f s).saved = s.saved) :
    Act.Leaves Sheet.saved (change f) :=
  Act.leaves_bind (Act.leaves_modify hf) fun _ => Act.leaves_pure _

def unpainted (s : Sheet α) : Sheet α := { s with painted := [] }

theorem unpainted_paint (ink : Ink) : Act.Leaves unpainted (paint ink : Act (Sheet α) _) := by
  refine Act.leaves_bind Act.leaves_get fun s => ?_
  split
  · exact Act.leaves_pure _
  split
  · exact Act.leaves_bind (Act.leaves_modify fun _ => rfl) fun _ => Act.leaves_pure _
  · exact Act.leaves_throw _

theorem saved_paint (ink : Ink) : Act.Leaves Sheet.saved (paint ink : Act (Sheet α) _) :=
  (unpainted_paint ink).part Sheet.saved

variable [Scalar α] [HasAxes α]

/-- What performing a call comes to, once its arguments are read. A curve that is refused may have
started a subpath before. -/
inductive Performs : Primitive → Act (Sheet α) (List Warning) → Prop
  | begins : Performs .beginPath (change beginPath)
  | moves (p : Point α) : Performs .moveTo (draw (moveTo p))
  | lines (p : Point α) : Performs .lineTo (draw (lineTo p))
  | cubic (x y : Argument α) (first second p : Point α) :
      Performs .cubicTo (startCurve x y >>= fun _ => draw (cubicTo first second p))
  | quadratic (x y : Argument α) (control p : Point α) :
      Performs .quadraticTo (startCurve x y >>= fun _ => draw (quadraticTo control p))
  | curveRefused (k : Primitive) (x y : Argument α) (e : Fault) :
      Performs k (startCurve x y >>= fun _ => throw e)
  | ellipse (o : Oval α) : Performs .ellipse (draw (ellipse o))
  | closes : Performs .closePath (change closePath)
  | saves : Performs .save (change save)
  | restores : Performs .restore (change restore)
  | paints (k : Primitive) (ink : Ink) : Performs k (paint ink)
  | composes (k : Primitive) (m : Affine α) : Performs k (change (compose m))
  | sets (m : Affine α) : Performs .setTransform (change fun s => { s with transform := m })
  | refused (k : Primitive) (e : Fault) : Performs k (throw e)

theorem performs_bind_ofExcept {β : Type} {k : Primitive} {e : Except Fault β}
    {f : β → Act (Sheet α) (List Warning)} (h : ∀ b, Performs k (f b)) :
    Performs k (Act.ofExcept e >>= f) := by
  cases e with
  | error e => exact .refused k e
  | ok b => exact h b

theorem performs_changeBy (k : Primitive) (m : Affine (Argument α)) : Performs k (changeBy m) :=
  performs_bind_ofExcept fun n => .composes k n

theorem performs_startCurve {β : Type} {k : Primitive} {x y : Argument α} {e : Except Fault β}
    {f : β → Act (Sheet α) (List Warning)}
    (h : ∀ b, Performs k (startCurve x y >>= fun _ => f b)) :
    Performs k (startCurve x y >>= fun _ => Act.ofExcept e >>= f) := by
  cases e with
  | error e => exact .curveRefused k x y e
  | ok b => exact h b

theorem performs_cubic (x1 y1 x2 y2 x y : Argument α) :
    Performs .cubicTo (performCubic x1 y1 x2 y2 x y) :=
  performs_startCurve fun p => performs_startCurve fun first => performs_startCurve fun second =>
    .cubic x1 y1 first second p

theorem performs_quadratic (x1 y1 x y : Argument α) :
    Performs .quadraticTo (performQuadratic x1 y1 x y) :=
  performs_startCurve fun p => performs_startCurve fun control => .quadratic x1 y1 control p

theorem performs_perform (k : Call α) : Performs k.primitive (perform k) := by
  obtain ⟨primitive, arguments⟩ := k
  rw [perform]
  dsimp only
  split
  · exact .begins
  · exact performs_bind_ofExcept fun p => .moves p
  · exact performs_bind_ofExcept fun p => .lines p
  · exact performs_cubic _ _ _ _ _ _
  · exact performs_quadratic _ _ _ _
  · exact performs_bind_ofExcept fun o => .ellipse o
  · exact .closes
  · exact .saves
  · exact .restores
  · exact .paints _ _
  · exact .refused _ _
  · exact .paints _ _
  · exact .refused _ _
  · exact performs_changeBy _ _
  · exact performs_changeBy _ _
  · exact performs_bind_ofExcept fun _ => performs_bind_ofExcept fun m => .composes _ m
  · exact performs_changeBy _ _
  · exact performs_bind_ofExcept fun m => .sets m
  · exact .refused _ _

theorem saved_performs {p : Primitive} {m : Act (Sheet α) (List Warning)} (h : Performs p m)
    (hs : p ≠ .save) (hr : p ≠ .restore) : Act.Leaves Sheet.saved m := by
  cases h with
  | begins | closes | composes | sets => exact saved_change fun _ => rfl
  | moves p => exact saved_onlyPath (onlyPath_draw (onlyPath_moveTo p))
  | lines p => exact saved_onlyPath (onlyPath_draw (onlyPath_lineTo p))
  | cubic x y first second p =>
    exact saved_onlyPath (Act.leaves_bind (onlyPath_startCurve x y) fun _ =>
      onlyPath_draw (onlyPath_cubicTo first second p))
  | quadratic x y control p =>
    exact saved_onlyPath (Act.leaves_bind (onlyPath_startCurve x y) fun _ =>
      onlyPath_draw (onlyPath_quadraticTo control p))
  | curveRefused _ x y e =>
    exact saved_onlyPath (Act.leaves_bind (onlyPath_startCurve x y) fun _ => Act.leaves_throw e)
  | ellipse o => exact saved_onlyPath (onlyPath_draw (onlyPath_ellipse o))
  | saves => exact absurd rfl hs
  | restores => exact absurd rfl hr
  | paints _ ink => exact saved_paint ink
  | refused _ e => exact Act.leaves_throw e

theorem saved_perform {k : Call α} (hs : k.primitive ≠ .save) (hr : k.primitive ≠ .restore) :
    Act.Leaves Sheet.saved (Surface.perform k : Act (Sheet α) _) :=
  saved_performs (performs_perform k) hs hr

end Calls

end Sheet

end Linework
