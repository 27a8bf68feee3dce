import Linework.Proofs.Canvas.Bends
import Linework.Proofs.Canvas.Course

/-!
# The rows of a command

What the numbers of a line or curve command stand for depends on the pen: on the current point if
they are relative, and on the control point if the curve is smooth. Each group of numbers becomes
one segment, and the groups that are left stand for what they would stand for once the pen has
followed it.

All of these commands take the same way: they look for what they go on from, read their arguments,
open a subpath if they are absolute, and draw the row. Only a walk along an axis does not read all
of its arguments before it draws.
-/

set_option autoImplicit false

namespace Linework

open Outline (Command Verb)

def Outline.Verb.readsAhead : Verb → Bool
  | .move | .line | .cubic | .smoothCubic | .quadratic | .smoothQuadratic => true
  | .horizontal | .vertical | .arc | .close => false

def Outline.Command.opens (k : Command) : Bool :=
  match k.verb with
  | .line | .cubic | .quadratic => !k.relative
  | _ => false

theorem Outline.Command.two_le_of_opens {k : Command} (h : k.opens) : 2 ≤ k.groupSize := by
  obtain ⟨v, relative⟩ := k
  cases v <;> cases relative <;> first | decide | cases h

def Outline.Verb.reflects? : Verb → Option Curve
  | .smoothCubic => some .cubic
  | .smoothQuadratic => some .quadratic
  | _ => none

theorem Outline.Verb.curve?_of_reflects {v : Verb} {curve : Curve} (h : v.reflects? = some curve) :
    v.curve? = some curve := by
  cases v <;> first | exact h | cases h

theorem Pen.control_follow {α : Type} {g : Segment α} {curve : Curve}
    (hg : g.curve? = some curve) (p : Pen α) : ∃ z, (p.follow g).control curve = some z := by
  cases g <;> cases hg <;> exact ⟨_, rfl⟩

section Rows

variable {α : Type} [Scalar α]

/-- The segments that numbers given to a command stand for. -/
def Pen.row (p : Pen α) (k : Command) (xs : List α) : List (Segment α) :=
  let current := p.current.getD Point.zero
  let zs := Point.pairs xs
  match k.verb with
  | .line => (if k.relative then displaced current zs else zs).map .line
  | .horizontal => (Canvas.walk (Canvas.horizontalStep k.relative) current xs).map .line
  | .vertical => (Canvas.walk (Canvas.verticalStep k.relative) current xs).map .line
  | .cubic =>
    let cs := CubicTo.group zs
    (if k.relative then CubicTo.resolve current cs else cs).map .cubic
  | .smoothCubic =>
    (smoothCubics k.relative current (p.cubic.getD Point.zero) (QuadraticTo.group zs)).map .cubic
  | .quadratic =>
    let qs := QuadraticTo.group zs
    (if k.relative then QuadraticTo.resolve current qs else qs).map .quadratic
  | .smoothQuadratic =>
    (smoothQuadratics k.relative current (p.quadratic.getD Point.zero) zs).map .quadratic
  | .move | .arc | .close => []

theorem Pen.row_nil (p : Pen α) (k : Command) : p.row k [] = [] := by
  obtain ⟨v, relative⟩ := k
  cases v <;> cases relative <;> rfl

/-- The first group is a segment, and the pen follows it before the others are looked at. -/
theorem Pen.exists_row_append {k : Command} (hk : k.verb.drawsSegments) (p : Pen α) {ys : List α}
    (hys : ys.length = k.groupSize) :
    ∃ g : Segment α, g.curve? = k.verb.curve? ∧
      ∀ zs, p.row k (ys ++ zs) = g :: (p.follow g).row k zs := by
  obtain ⟨v, relative⟩ := k
  cases v with
  | line =>
    match ys, hys with
    | [_, _], _ => cases relative <;> exact ⟨.line _, rfl, fun _ => rfl⟩
  | horizontal | vertical =>
    match ys, hys with
    | [_], _ => exact ⟨.line _, rfl, fun _ => rfl⟩
  | cubic =>
    match ys, hys with
    | [_, _, _, _, _, _], _ => cases relative <;> exact ⟨.cubic _, rfl, fun _ => rfl⟩
  | smoothCubic =>
    match ys, hys with
    | [_, _, _, _], _ => exact ⟨.cubic _, rfl, fun _ => rfl⟩
  | quadratic =>
    match ys, hys with
    | [_, _, _, _], _ => cases relative <;> exact ⟨.quadratic _, rfl, fun _ => rfl⟩
  | smoothQuadratic =>
    match ys, hys with
    | [_, _], _ => exact ⟨.quadratic _, rfl, fun _ => rfl⟩
  | move | arc | close => cases hk

end Rows

namespace Canvas

section Looking

variable {σ α : Type} {k : Command} {c : Canvas σ α}

/-- What a command looks for before it reads its arguments. -/
def lookFor (k : Command) : Act (Canvas σ α) Unit :=
  match k.verb.reflects? with
  | some curve => do
    let _ ← requireControl curve
    let _ ← requireCurrent
  | none =>
    if k.opens then pure ()
    else do
      let _ ← requireCurrent

theorem lookFor_of_opens (hv : k.verb.reflects? = none) (ho : k.opens) :
    (lookFor k : Act (Canvas σ α) Unit) = pure () := by
  rw [lookFor, hv]
  exact if_pos ho

theorem lookFor_of_not_opens (hv : k.verb.reflects? = none) (ho : k.opens = false) :
    (lookFor k : Act (Canvas σ α) Unit) = (requireCurrent >>= fun _ => pure ()) := by
  rw [lookFor, hv]
  exact if_neg (by simp [ho])

theorem lookFor_of_reflects {curve : Curve} (hv : k.verb.reflects? = some curve) :
    (lookFor k : Act (Canvas σ α) Unit) =
      (requireControl curve >>= fun _ => requireCurrent >>= fun _ => pure ()) := by
  rw [lookFor, hv]

theorem control_of_requireControl {curve : Curve} {z : Point α} {t : Canvas σ α}
    (h : (requireControl curve).run c = (.ok z, t)) : c.pen.control curve = some z ∧ c = t := by
  cases hz : c.pen.control curve with
  | none =>
    rw [run_requireControl_of_none hz] at h
    cases h
  | some w =>
    rw [run_requireControl_of_some hz] at h
    cases h
    exact ⟨rfl, rfl⟩

theorem current_of_requireCurrent {z : Point α} {t : Canvas σ α}
    (h : requireCurrent.run c = (.ok z, t)) : c.pen.current = some z ∧ c = t := by
  rw [run_requireCurrent] at h
  exact ⟨Pen.current_of_requireCurrent (congrArg Prod.fst h), congrArg Prod.snd h⟩

theorem lookFor_reads (k : Command) (c : Canvas σ α) : ∃ x, (lookFor k).run c = (x, c) := by
  have hcurrent : ∃ x, (requireCurrent >>= fun _ => pure () : Act (Canvas σ α) Unit).run c =
      (x, c) := by
    rw [Act.run_bind, run_requireCurrent]
    cases c.pen.requireCurrent <;> exact ⟨_, rfl⟩
  cases hv : k.verb.reflects? with
  | some curve =>
    rw [lookFor_of_reflects hv]
    cases hz : c.pen.control curve with
    | none => exact ⟨_, Act.run_bind_error (run_requireControl_of_none hz)⟩
    | some z => rwa [Act.run_bind_ok (run_requireControl_of_some hz)]
  | none =>
    cases ho : k.opens with
    | true => exact ⟨_, by rw [lookFor_of_opens hv ho, Act.run_pure]⟩
    | false => rwa [lookFor_of_not_opens hv ho]

theorem run_lookFor_of_follow {p : Pen α} {g : Segment α} (hg : g.curve? = k.verb.curve?)
    (hc : c.pen = p.follow g) : (lookFor k).run c = (.ok (), c) := by
  have hz : c.pen.current = some g.finish := by rw [hc, Pen.follow_current]
  have hcurrent : (requireCurrent >>= fun _ => pure () : Act (Canvas σ α) Unit).run c =
      (.ok (), c) := by
    rw [Act.run_bind_ok (run_requireCurrent_of_some hz), Act.run_pure]
  cases hv : k.verb.reflects? with
  | some curve =>
    obtain ⟨w, hw⟩ := Pen.control_follow (hg.trans (Verb.curve?_of_reflects hv)) p
    rw [lookFor_of_reflects hv, Act.run_bind_ok (run_requireControl_of_some (hc ▸ hw))]
    exact hcurrent
  | none =>
    cases ho : k.opens with
    | true => rw [lookFor_of_opens hv ho, Act.run_pure]
    | false => rwa [lookFor_of_not_opens hv ho]

end Looking

section Drawing

variable {σ α : Type} [Surface σ α] {k : Command} {c : Canvas σ α}

def openFor (k : Command) : List α → Act (Canvas σ α) Unit
  | x :: y :: _ => if k.opens then ensureOpenAt ⟨x, y⟩ else pure ()
  | _ => pure ()

theorem openFor_of_not_opens (ho : k.opens = false) (xs : List α) :
    (openFor k xs : Act (Canvas σ α) Unit) = pure () := by
  rw [openFor.eq_def]
  split
  · exact if_neg (by simp [ho])
  · rfl

theorem openFor_append {ys : List α} (hys : ys.length = k.groupSize) (zs : List α) :
    (openFor k (ys ++ zs) : Act (Canvas σ α) Unit) = openFor k ys := by
  cases ho : k.opens with
  | false => rw [openFor_of_not_opens ho, openFor_of_not_opens ho]
  | true =>
    have hle : 2 ≤ ys.length := hys ▸ Outline.Command.two_le_of_opens ho
    match ys, hle with
    | _ :: _ :: _, _ => rfl

variable [Scalar α]

def drawNumbers (k : Command) (xs : List α) : Act (Canvas σ α) Unit := do
  openFor k xs
  let d ← get
  drawSegments (d.pen.row k xs)

omit [Surface σ α] in
theorem points_bind (as : List (Argument α)) (f : List (Point α) → Act (Canvas σ α) Unit) :
    (points as >>= f) = (Act.ofExcept (Argument.reals as) >>= fun xs => f (Point.pairs xs)) := by
  rw [points]
  cases Argument.reals as <;> rfl

theorem run_drawNumbers_of_not_opens (ho : k.opens = false) (xs : List α) (c : Canvas σ α) :
    (drawNumbers k xs).run c = (drawSegments (c.pen.row k xs)).run c := by
  rw [drawNumbers, openFor_of_not_opens ho, pure_bind, Act.run_bind_ok (Act.run_get c)]

theorem run_goingOn (ho : k.opens = false) {as : List (Argument α)}
    {f : Point α → List (Point α) → Act (Canvas σ α) Unit}
    (hf : ∀ z xs, c.pen.current = some z →
      f z (Point.pairs xs) = drawSegments (c.pen.row k xs)) :
    (requireCurrent >>= fun z => points as >>= f z).run c =
      (requireCurrent >>= fun _ => Act.ofExcept (Argument.reals as) >>= drawNumbers k).run c := by
  refine Act.run_bind_congr fun z t hrun => ?_
  obtain ⟨hz, rfl⟩ := current_of_requireCurrent hrun
  rw [points_bind]
  refine Act.run_bind_ofExcept_congr fun xs => ?_
  rw [hf z xs hz, run_drawNumbers_of_not_opens ho]

theorem run_fromFirst (ho : k.opens) {as : List (Argument α)}
    {f g : List (Point α) → Act (Canvas σ α) Unit} (hnil : f [] = g [])
    (hcons : ∀ z rest, f (z :: rest) = ensureOpenAt z >>= fun _ => g (z :: rest))
    (hg : ∀ (p : Pen α) xs, g (Point.pairs xs) = drawSegments (p.row k xs)) :
    (points as >>= f).run c = (Act.ofExcept (Argument.reals as) >>= drawNumbers k).run c := by
  rw [points_bind]
  refine Act.run_bind_ofExcept_congr fun xs => ?_
  match xs with
  | [] | [_] =>
    rw [drawNumbers, openFor.eq_2 _ _ (by simp), pure_bind, Act.run_bind_ok (Act.run_get c), ← hg]
    simp only [Point.pairs, hnil]
  | x :: y :: rest =>
    simp only [Point.pairs, hcons, drawNumbers, openFor, if_pos ho]
    refine Act.run_bind_congr fun _ t _ => ?_
    rw [Act.run_bind_ok (Act.run_get t), ← hg]
    rfl

theorem run_carryOut (hr : k.verb.readsAhead) (hk : k.verb.drawsSegments)
    (as : List (Argument α)) (c : Canvas σ α) :
    (carryOut k as).run c =
      (lookFor k >>= fun _ => Act.ofExcept (Argument.reals as) >>= drawNumbers k).run c := by
  obtain ⟨v, relative⟩ := k
  cases v with
  | line =>
    cases relative with
    | true =>
      rw [lookFor_of_not_opens rfl rfl, bind_assoc]
      refine run_goingOn rfl fun z xs hz => ?_
      simp only [Pen.row, hz]
      exact drawLines_eq_segments _
    | false =>
      rw [lookFor_of_opens rfl rfl, pure_bind]
      have hrow (p : Pen α) (xs : List α) : drawLines (Point.pairs xs) =
          (drawSegments (p.row ⟨.line, false⟩ xs) : Act (Canvas σ α) Unit) :=
        drawLines_eq_segments _
      exact run_fromFirst (g := fun zs => drawLines zs) rfl rfl (fun _ _ => rfl) hrow
  | cubic =>
    cases relative with
    | true =>
      rw [lookFor_of_not_opens rfl rfl, bind_assoc]
      refine run_goingOn rfl fun z xs hz => ?_
      simp only [Pen.row, hz]
      exact drawCubics_eq_segments _
    | false =>
      have hrow (p : Pen α) (xs : List α) : drawCubics (CubicTo.group (Point.pairs xs)) =
          (drawSegments (p.row ⟨.cubic, false⟩ xs) : Act (Canvas σ α) Unit) :=
        drawCubics_eq_segments _
      rw [lookFor_of_opens rfl rfl, pure_bind]
      exact run_fromFirst (g := fun zs => drawCubics (CubicTo.group zs)) rfl rfl
        (fun _ _ => rfl) hrow
  | quadratic =>
    cases relative with
    | true =>
      rw [lookFor_of_not_opens rfl rfl, bind_assoc]
      refine run_goingOn rfl fun z xs hz => ?_
      simp only [Pen.row, hz]
      exact drawQuadratics_eq_segments _
    | false =>
      have hrow (p : Pen α) (xs : List α) : drawQuadratics (QuadraticTo.group (Point.pairs xs)) =
          (drawSegments (p.row ⟨.quadratic, false⟩ xs) : Act (Canvas σ α) Unit) :=
        drawQuadratics_eq_segments _
      rw [lookFor_of_opens rfl rfl, pure_bind]
      exact run_fromFirst (g := fun zs => drawQuadratics (QuadraticTo.group zs)) rfl rfl
        (fun _ _ => rfl) hrow
  | smoothCubic =>
    rw [lookFor_of_reflects rfl]
    simp only [bind_assoc, pure_bind]
    refine Act.run_bind_congr fun b t hrun => ?_
    obtain ⟨hb, rfl⟩ := control_of_requireControl hrun
    refine run_goingOn rfl fun z xs hz => ?_
    change c.pen.cubic = some b at hb
    simp only [Pen.row, hz, hb]
    exact drawCubics_eq_segments _
  | smoothQuadratic =>
    rw [lookFor_of_reflects rfl]
    simp only [bind_assoc, pure_bind]
    refine Act.run_bind_congr fun b t hrun => ?_
    obtain ⟨hb, rfl⟩ := control_of_requireControl hrun
    refine run_goingOn rfl fun z xs hz => ?_
    change c.pen.quadratic = some b at hb
    simp only [Pen.row, hz, hb]
    exact drawQuadratics_eq_segments _
  | horizontal | vertical => cases hr
  | move | arc | close => cases hk

theorem run_carryOut_of_reals (hk : k.verb.drawsSegments) {as : List (Argument α)} {xs : List α}
    (h : Argument.reals as = .ok xs) (c : Canvas σ α) :
    (carryOut k as).run c = (lookFor k >>= fun _ => drawNumbers k xs).run c := by
  have hahead (hr : k.verb.readsAhead) :
      (carryOut k as).run c = (lookFor k >>= fun _ => drawNumbers k xs).run c := by
    rw [run_carryOut hr hk, h]
    rfl
  obtain ⟨v, relative⟩ := k
  cases v with
  | line | cubic | smoothCubic | quadratic | smoothQuadratic => exact hahead rfl
  | horizontal | vertical =>
    rw [lookFor_of_not_opens rfl rfl, bind_assoc]
    refine Act.run_bind_congr fun z t hrun => ?_
    obtain ⟨hz, rfl⟩ := current_of_requireCurrent hrun
    rw [drawAlong_of_reals _ _ h, pure_bind, run_drawNumbers_of_not_opens rfl]
    simp only [Pen.row, hz]
    rw [drawLines_eq_segments]
    rfl
  | move | arc | close => cases hk

end Drawing

end Canvas

end Linework
