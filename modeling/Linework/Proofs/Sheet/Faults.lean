import Linework.Proofs.Canvas.Checks
import Linework.Sheet.Basic

/-!
# What a sheet can fail with

A sheet fails where it cannot read what it is handed, where arithmetic does, or where a coordinate
or a paint cannot be written. It has no check of a command among its own faults, so a command on a
sheet that fails a check has not touched it.
-/

set_option autoImplicit false

namespace Linework

section Reading

variable {α : Type}

theorem Entry.unchecked_checkExtent (flat : List Nat) (e : Extent) :
    OnlyFails Fault.Unchecked (checkExtent flat e) := by
  rw [checkExtent]
  split
  · exact onlyFails_unchecked rfl
  split
  · exact onlyFails_ok _
  · exact onlyFails_unchecked rfl

variable [Scalar α]

theorem Entry.unchecked_position (x y : Argument α) :
    OnlyFails Fault.Unchecked (position x y) := by
  refine onlyFails_bind (unchecked_checkExtent _ _) fun _ => ?_
  split
  · exact onlyFails_unchecked rfl
  · exact Argument.unchecked_point _

theorem Entry.unchecked_entry (amongTexts : Bool) (a : Argument α) :
    OnlyFails Fault.Unchecked (entry amongTexts a) := by
  rw [entry.eq_def]
  split
  · exact onlyFails_ok _
  · split
    · exact onlyFails_unchecked rfl
    · exact Argument.unchecked_real _
  · exact onlyFails_ok _
  · dsimp only
    split
    · exact onlyFails_ok _
    · exact onlyFails_unchecked rfl
  · exact onlyFails_unchecked rfl

theorem Entry.unchecked_transform (m : Affine (Argument α)) :
    OnlyFails Fault.Unchecked (transform m) := by
  refine onlyFails_bind (unchecked_checkExtent _ _) fun _ => ?_
  refine onlyFails_bind (unchecked_entry _ _) fun a => ?_
  refine onlyFails_bind (unchecked_entry _ _) fun c => ?_
  refine onlyFails_bind (unchecked_entry _ _) fun e => ?_
  refine onlyFails_bind (unchecked_entry _ _) fun b => ?_
  refine onlyFails_bind (unchecked_entry _ _) fun d => ?_
  exact onlyFails_bind (unchecked_entry _ _) fun f => onlyFails_ok _

theorem Scalar.unchecked_onCircle (f : α → α) (angle : α) :
    OnlyFails Fault.Unchecked (onCircle f angle) := by
  rw [onCircle]
  split
  · exact onlyFails_unchecked rfl
  · exact onlyFails_ok _

theorem Affine.unchecked_rotation (angle : α) : OnlyFails Fault.Unchecked (rotation angle) :=
  onlyFails_bind (Scalar.unchecked_onCircle _ _) fun _ =>
    onlyFails_bind (Scalar.unchecked_onCircle _ _) fun _ => onlyFails_ok _

theorem Affine.unchecked_ellipseImage? [HasAxes α] (m : Affine α) (radii : Point α)
    (rotation : α) : OnlyFails Fault.Unchecked (m.ellipseImage? radii rotation) := by
  rw [ellipseImage?]
  split
  · exact onlyFails_ok _
  refine onlyFails_bind ?_ fun matrix => ?_
  · exact onlyFails_bind (Scalar.unchecked_onCircle _ _) fun _ =>
      onlyFails_bind (Scalar.unchecked_onCircle _ _) fun _ => onlyFails_ok _
  · dsimp only
    split <;> exact onlyFails_ok _

namespace Oval

theorem unchecked_ofArguments (center radii : Point (Argument α))
    (rotation startAngle endAngle anticlockwise : Argument α) :
    OnlyFails Fault.Unchecked
      (ofArguments center radii rotation startAngle endAngle anticlockwise) := by
  refine onlyFails_bind (Argument.unchecked_point _) fun _ => ?_
  refine onlyFails_bind (Argument.unchecked_point _) fun _ => ?_
  refine onlyFails_bind (Argument.unchecked_real _) fun _ => ?_
  refine onlyFails_bind (Argument.unchecked_real _) fun _ => ?_
  refine onlyFails_bind (Scalar.unchecked_onCircle _ _) fun _ => ?_
  exact onlyFails_bind (Argument.unchecked_real _) fun _ => onlyFails_ok _

theorem unchecked_pointAt (e : Ellipse α) (angle : α) :
    OnlyFails Fault.Unchecked (e.pointAt angle) :=
  onlyFails_bind (Scalar.unchecked_onCircle _ _) fun _ =>
    onlyFails_bind (Scalar.unchecked_onCircle _ _) fun _ => onlyFails_ok _

theorem unchecked_pieces (o : Oval α) : OnlyFails Fault.Unchecked o.pieces := by
  refine onlyFails_bind ?_ fun arc => onlyFails_bind ?_ fun _ => onlyFails_ok _
  · exact onlyFails_bind (unchecked_pointAt _ _) fun _ =>
      onlyFails_bind (unchecked_pointAt _ _) fun _ => onlyFails_ok _
  · rw [piecesOf]
    dsimp only
    split
    · exact onlyFails_ok _
    split
    · exact onlyFails_bind (unchecked_pointAt _ _) fun _ => onlyFails_ok _
    · exact onlyFails_ok _

end Oval

end Reading

namespace Sheet

open Act

variable {α : Type}

theorem unchecked_change (f : Sheet α → Sheet α) : FailsOnly Fault.Unchecked (change f) :=
  failsOnly_bind (failsOnly_modify f) fun _ => failsOnly_pure _

theorem unchecked_draw {m : Act (Sheet α) Unit} (h : FailsOnly Fault.Unchecked m) :
    FailsOnly Fault.Unchecked (draw m) :=
  failsOnly_bind h fun _ => failsOnly_pure _

theorem unchecked_paint (ink : Ink) : FailsOnly Fault.Unchecked (paint ink : Act (Sheet α) _) := by
  refine failsOnly_bind failsOnly_get fun s => ?_
  split
  · exact failsOnly_pure _
  split
  · exact failsOnly_bind (failsOnly_modify _) fun _ => failsOnly_pure _
  · exact fun _ => onlyFails_unchecked rfl

variable [Scalar α]

theorem unchecked_append (part : Part α) : FailsOnly Fault.Unchecked (append part) := by
  rw [append]
  split
  · exact fun _ => onlyFails_unchecked rfl
  · exact failsOnly_modify _

theorem unchecked_append_modify (part : Part α) (f : Sheet α → Sheet α) :
    FailsOnly Fault.Unchecked (append part >>= fun _ => modify f) :=
  failsOnly_bind (unchecked_append part) fun _ => failsOnly_modify f

theorem unchecked_moveTo (p : Point α) : FailsOnly Fault.Unchecked (moveTo p) :=
  failsOnly_bind failsOnly_get fun _ => unchecked_append_modify _ _

theorem unchecked_lineTo (p : Point α) : FailsOnly Fault.Unchecked (lineTo p) := by
  refine failsOnly_bind failsOnly_get fun s => ?_
  dsimp only
  split <;> exact unchecked_append_modify _ _

theorem unchecked_ensureCurrent (p : Point α) : FailsOnly Fault.Unchecked (ensureCurrent p) := by
  refine failsOnly_bind failsOnly_get fun s => ?_
  split
  · exact unchecked_moveTo p
  · exact failsOnly_pure _

theorem unchecked_cubicTo (first second p : Point α) :
    FailsOnly Fault.Unchecked (cubicTo first second p) :=
  failsOnly_bind (unchecked_ensureCurrent _) fun _ =>
    failsOnly_bind failsOnly_get fun _ => unchecked_append_modify _ _

theorem unchecked_quadraticTo (control p : Point α) :
    FailsOnly Fault.Unchecked (quadraticTo control p) :=
  failsOnly_bind (unchecked_ensureCurrent _) fun _ =>
    failsOnly_bind failsOnly_get fun _ => unchecked_append_modify _ _

theorem unchecked_startCurve (x y : Argument α) : FailsOnly Fault.Unchecked (startCurve x y) := by
  refine failsOnly_bind failsOnly_get fun s => ?_
  split
  · exact failsOnly_bind (failsOnly_ofExcept (Entry.unchecked_position x y)) fun p =>
      unchecked_moveTo p
  · exact failsOnly_pure _

theorem unchecked_joinTo (z : Point α) : FailsOnly Fault.Unchecked (joinTo z) := by
  refine failsOnly_bind failsOnly_get fun s => ?_
  split
  · exact unchecked_append_modify _ _
  · next p _ =>
    have hclose : OnlyFails Fault.Unchecked (p.isClose z) :=
      onlyFails_bind ((Point.onlyFails_length _).imp fun _ => Fault.Arithmetic.unchecked) fun _ =>
        onlyFails_bind ((Point.onlyFails_length _).imp fun _ => Fault.Arithmetic.unchecked)
          fun _ => onlyFails_ok _
    refine failsOnly_bind (failsOnly_ofExcept hclose) fun near => ?_
    cases near with
    | true => exact failsOnly_modify _
    | false => exact unchecked_append_modify _ _

theorem unchecked_drawPieces (image : Option (EllipseImage α)) (pieces : List (EndpointArc α)) :
    FailsOnly Fault.Unchecked (drawPieces image pieces) := by
  induction pieces with
  | nil => exact failsOnly_pure _
  | cons piece rest ih =>
    refine failsOnly_bind failsOnly_get fun _ => ?_
    refine failsOnly_bind (unchecked_append _) fun _ => ?_
    exact failsOnly_bind (failsOnly_modify _) fun _ => ih

theorem unchecked_changeBy (m : Affine (Argument α)) : FailsOnly Fault.Unchecked (changeBy m) :=
  failsOnly_bind (failsOnly_ofExcept (Entry.unchecked_transform m)) fun _ => unchecked_change _

theorem unchecked_performCubic (x1 y1 x2 y2 x y : Argument α) :
    FailsOnly Fault.Unchecked (performCubic x1 y1 x2 y2 x y) := by
  refine failsOnly_bind (unchecked_startCurve x1 y1) fun _ => ?_
  refine failsOnly_bind (failsOnly_ofExcept (Entry.unchecked_position _ _)) fun p => ?_
  refine failsOnly_bind (failsOnly_ofExcept (Entry.unchecked_position _ _)) fun first => ?_
  refine failsOnly_bind (failsOnly_ofExcept (Entry.unchecked_position _ _)) fun second => ?_
  exact unchecked_draw (unchecked_cubicTo first second p)

theorem unchecked_performQuadratic (x1 y1 x y : Argument α) :
    FailsOnly Fault.Unchecked (performQuadratic x1 y1 x y) := by
  refine failsOnly_bind (unchecked_startCurve x1 y1) fun _ => ?_
  refine failsOnly_bind (failsOnly_ofExcept (Entry.unchecked_position _ _)) fun p => ?_
  refine failsOnly_bind (failsOnly_ofExcept (Entry.unchecked_position _ _)) fun control => ?_
  exact unchecked_draw (unchecked_quadraticTo control p)

variable [HasAxes α]

theorem unchecked_ellipse (o : Oval α) : FailsOnly Fault.Unchecked (ellipse o) := by
  refine failsOnly_bind (failsOnly_ofExcept o.unchecked_pieces) fun ⟨start, pieces⟩ => ?_
  refine failsOnly_bind failsOnly_get fun _ => ?_
  refine failsOnly_bind (unchecked_joinTo _) fun _ => ?_
  split
  · exact failsOnly_pure _
  refine failsOnly_bind failsOnly_get fun _ => ?_
  exact failsOnly_bind (failsOnly_ofExcept (Affine.unchecked_ellipseImage? _ _ _)) fun image =>
    unchecked_drawPieces image pieces

theorem unchecked_perform (k : Call α) :
    FailsOnly Fault.Unchecked (Surface.perform k : Act (Sheet α) _) := by
  change FailsOnly Fault.Unchecked (perform k)
  obtain ⟨primitive, arguments⟩ := k
  rw [perform]
  dsimp only
  split
  · exact unchecked_change _
  · exact failsOnly_bind (failsOnly_ofExcept (Entry.unchecked_position _ _)) fun p =>
      unchecked_draw (unchecked_moveTo p)
  · exact failsOnly_bind (failsOnly_ofExcept (Entry.unchecked_position _ _)) fun p =>
      unchecked_draw (unchecked_lineTo p)
  · exact unchecked_performCubic _ _ _ _ _ _
  · exact unchecked_performQuadratic _ _ _ _
  · exact failsOnly_bind (failsOnly_ofExcept (Oval.unchecked_ofArguments _ _ _ _ _ _)) fun o =>
      unchecked_draw (unchecked_ellipse o)
  · exact unchecked_change _
  · exact unchecked_change _
  · exact unchecked_change _
  · exact unchecked_paint _
  · exact fun _ => onlyFails_unchecked rfl
  · exact unchecked_paint _
  · exact fun _ => onlyFails_unchecked rfl
  · exact unchecked_changeBy _
  · exact unchecked_changeBy _
  · exact failsOnly_bind (failsOnly_ofExcept (Argument.unchecked_real _)) fun turn =>
      failsOnly_bind (failsOnly_ofExcept (Affine.unchecked_rotation turn)) fun _ =>
        unchecked_change _
  · exact unchecked_changeBy _
  · exact failsOnly_bind (failsOnly_ofExcept (Entry.unchecked_transform _)) fun m =>
      unchecked_change _
  · exact fun _ => onlyFails_unchecked rfl

end Sheet

theorem Surface.not_raises {σ α : Type} [Surface σ α]
    (h : ∀ k : Call α, Act.FailsOnly Fault.Unchecked (perform k : Act σ _)) {e : Fault}
    (he : e.OfCheck) {s t : σ} : ¬ Surface.Raises e s t := by
  rintro ⟨before, k, w, u, -, hk⟩
  have hu := h k u
  rw [hk] at hu
  exact hu e rfl he

namespace Canvas

variable {α : Type} [Scalar α] [HasAxes α]

/-- A command that fails a check has asked the surface for nothing and changed nothing, unless it
is the surface that raises such a fault. Neither sheets nor recordings do. -/
theorem untouched_of_check {op : Op α} (hop : op.isCommand) {e : Fault} (he : e.OfCheck) :
    (∀ (σ : Type) [Surface σ α] (c t : Canvas σ α), step op c = (.error e, t) →
      Untouched op e c t ∨ Surface.Raises e c.surface t.surface) ∧
    (∀ c t : Canvas (Sheet α) α, step op c = (.error e, t) → Untouched op e c t) ∧
    ∀ c t : Canvas (Recording α) α, step op c = (.error e, t) → Untouched op e c t := by
  refine ⟨fun σ _ c t h => untouched_or_raises hop he h, fun c t h => ?_, fun c t h => ?_⟩
  · exact (untouched_or_raises hop he h).resolve_right
      (Surface.not_raises Sheet.unchecked_perform he)
  · exact (untouched_or_raises hop he h).resolve_right
      (Surface.not_raises (fun k _ => onlyFails_ok []) he)

theorem untouched_of_check_at_arc :
    Untouched (.command ⟨.arc, false⟩
      (Argument.ofNumbers [0, 0, 0, 0, 0, 5, 5, 0, 0, 0, 0, 0, 9, 5])) .noOpenSubpath
      (fresh (.default "") false .radians : Canvas (Sheet Float) Float)
      (fresh (.default "") false .radians) :=
  (untouched_of_check rfl (by decide)).2.1 _ _ (Prod.ext (by decide +kernel) rfl)

end Canvas

end Linework
