import Linework.Proofs.Canvas.Drawing

/-!
# The course of a line or curve command

Seven kinds of commands draw lines and curves, and all of them come to the same: a row of segments
is drawn, and the pen follows the last one. A subpath may have to be opened first, and a command
may break off by itself, because there is nothing to go on from or an argument is no number.
-/

set_option autoImplicit false

namespace Linework

open Outline (Command)

/-- What a line or curve command draws, from where the path has got to. -/
inductive Segment (α : Type) where
  | line (z : Point α)
  | cubic (c : CubicTo α)
  | quadratic (q : QuadraticTo α)

namespace Segment

variable {α : Type}

def finish : Segment α → Point α
  | line z => z
  | cubic c => c.finish
  | quadratic q => q.finish

def call : Segment α → Call α
  | line z => .lineTo z
  | cubic c => c.call
  | quadratic q => q.call

def curve? : Segment α → Option Curve
  | line _ => none
  | cubic _ => some .cubic
  | quadratic _ => some .quadratic

end Segment

namespace Pen

variable {α : Type}

def follow (p : Pen α) : Segment α → Pen α
  | .line z => p.moveTo z
  | .cubic c => p.curveTo .cubic c.second c.finish
  | .quadratic q => p.curveTo .quadratic q.control q.finish

def followAll (p : Pen α) (gs : List (Segment α)) : Pen α := gs.getLast?.elim p p.follow

@[simp] theorem follow_current (p : Pen α) (g : Segment α) :
    (p.follow g).current = some g.finish := by
  cases g <;> simp [follow, Segment.finish]

@[simp] theorem follow_start (p : Pen α) (g : Segment α) : (p.follow g).start = p.start := by
  cases g <;> simp [follow]

@[simp] theorem followAll_concat (p : Pen α) (gs : List (Segment α)) (g : Segment α) :
    p.followAll (gs ++ [g]) = p.follow g := by
  simp [followAll]

@[simp] theorem followAll_start (p : Pen α) (gs : List (Segment α)) :
    (p.followAll gs).start = p.start := by
  rcases List.eq_nil_or_concat' gs with rfl | ⟨init, g, rfl⟩
  · rfl
  · simp

end Pen

def Outline.Verb.drawsSegments : Outline.Verb → Bool
  | .line | .horizontal | .vertical | .cubic | .smoothCubic | .quadratic | .smoothQuadratic => true
  | .move | .arc | .close => false

theorem Outline.Verb.ne_close_of_drawsSegments {v : Outline.Verb} (h : v.drawsSegments) :
    v ≠ .close := by
  rintro rfl
  cases h

theorem Argument.reals_error {α : Type} [Scalar α] {as : List (Argument α)} {e : Fault}
    (h : reals as = .error e) : e = .wrongType := by
  induction as with
  | nil => cases h
  | cons a rest ih =>
    rcases reals_cons_error h with ha | ⟨_, -, hr⟩
    · cases a with
      | number x | flag b => cases ha
      | absent | style s | other v => exact (Except.error.inj ha).symm
    · exact ih hr

namespace Canvas

variable {σ α : Type} [Surface σ α]

def drawSegments (gs : List (Segment α)) : Act (Canvas σ α) Unit :=
  drawThen (gs.map Segment.call) fun p => p.followAll gs

/-- What an action that draws segments can come to. -/
inductive Course (c : Canvas σ α) (r : Except Fault Unit × Canvas σ α) : Prop
  | row (gs : List (Segment α)) (ho : gs ≠ [] → c.pen.isOpen) (hr : r = (drawSegments gs).run c)
  | opened (z : Point α) (gs : List (Segment α)) (hc : c.pen.isOpen = false)
      (hr : r = (draw (.moveTo z) >>= fun _ => drawSegments gs).run
        (c.withPen fun p => p.openAt z))
  | brokenOff (gs : List (Segment α)) (ho : gs ≠ [] → c.pen.isOpen) (e : Fault)
      (he : ∀ n, e ≠ .notWritable n)
      (hr : r = (drawCalls (gs.map Segment.call) >>= fun _ => throw e).run c)

theorem drawSegments_nil : (drawSegments [] : Act (Canvas σ α) Unit) = pure () :=
  funext fun _ => rfl

/-- A drawer of rows of one sort of segment is known by what it does with a row that has a
last one. -/
theorem eq_drawSegments {β : Type} {drawRow : List β → Act (Canvas σ α) Unit}
    {segment : β → Segment α} (hnil : drawRow [] = pure ())
    (hconcat : ∀ init b, drawRow (init ++ [b]) =
      drawThen ((init ++ [b]).map fun x => (segment x).call) fun p => p.follow (segment b))
    (bs : List β) : drawRow bs = drawSegments (bs.map segment) := by
  rcases List.eq_nil_or_concat' bs with rfl | ⟨init, b, rfl⟩
  · exact hnil.trans drawSegments_nil.symm
  · rw [hconcat, drawSegments, List.map_map]
    simp only [List.map_append, List.map_cons, List.map_nil, Pen.followAll_concat]
    rfl

theorem drawLines_eq_segments (zs : List (Point α)) :
    (drawLines zs : Act (Canvas σ α) Unit) = drawSegments (zs.map .line) :=
  eq_drawSegments rfl drawLines_concat zs

theorem drawCubics_eq_segments (cs : List (CubicTo α)) :
    (drawCubics cs : Act (Canvas σ α) Unit) = drawSegments (cs.map .cubic) :=
  eq_drawSegments rfl drawCubics_concat cs

theorem drawQuadratics_eq_segments (qs : List (QuadraticTo α)) :
    (drawQuadratics qs : Act (Canvas σ α) Unit) = drawSegments (qs.map .quadratic) :=
  eq_drawSegments rfl drawQuadratics_concat qs

section Rules

variable {c : Canvas σ α}

theorem course_row (gs : List (Segment α)) (ho : c.pen.isOpen) :
    Course c ((drawSegments gs).run c) :=
  .row gs (fun _ => ho) rfl

theorem course_pure : Course c ((pure () : Act (Canvas σ α) Unit).run c) :=
  .row [] (fun h => absurd rfl h) (by rw [drawSegments_nil])

theorem course_error {e : Fault} (he : ∀ n, e ≠ .notWritable n) : Course c (.error e, c) :=
  .brokenOff [] (fun h => absurd rfl h) e he rfl

theorem course_bind_of_reads {β : Type} {m : Act (Canvas σ α) β} {f : β → Act (Canvas σ α) Unit}
    {x : Except Fault β} (hm : m.run c = (x, c)) (he : ∀ n, x ≠ .error (.notWritable n))
    (hf : ∀ b, x = .ok b → Course c ((f b).run c)) : Course c ((m >>= f).run c) := by
  cases x with
  | error e =>
    rw [Act.run_bind_error hm]
    exact course_error fun n hn => he n (congrArg _ hn)
  | ok b =>
    rw [Act.run_bind_ok hm]
    exact hf b rfl

theorem course_bind_requireCurrent {f : Point α → Act (Canvas σ α) Unit}
    (hf : ∀ z, c.pen.isOpen → Course c ((f z).run c)) :
    Course c ((requireCurrent >>= f).run c) := by
  refine course_bind_of_reads (run_requireCurrent c) (fun n hn => ?_) fun z hz =>
    hf z (Pen.isOpen_iff.mpr ⟨z, Pen.current_of_requireCurrent hz⟩)
  rw [Pen.requireCurrent] at hn
  split at hn <;> cases hn

theorem course_bind_requireControl {curve : Curve} {f : Point α → Act (Canvas σ α) Unit}
    (hf : ∀ z, Course c ((f z).run c)) : Course c ((requireControl curve >>= f).run c) := by
  cases h : c.pen.control curve with
  | none =>
    have hm := run_requireControl_of_none h
    exact course_bind_of_reads hm (fun n hn => by cases hn) fun z _ => hf z
  | some z =>
    have hm := run_requireControl_of_some h
    exact course_bind_of_reads hm (fun n hn => by cases hn) fun z _ => hf z

theorem course_bind_ensureOpenAt (z : Point α) (gs : List (Segment α)) :
    Course c ((ensureOpenAt z >>= fun _ => drawSegments gs).run c) := by
  cases hc : c.pen.isOpen with
  | true =>
    rw [Act.run_bind_ok (run_ensureOpenAt_of_open hc)]
    exact course_row gs hc
  | false =>
    cases ha : c.autoOpen with
    | false =>
      rw [Act.run_bind_error (run_ensureOpenAt_of_strict hc ha)]
      exact course_error fun n hn => by cases hn
    | true =>
      refine .opened z gs hc ?_
      rw [Act.run_bind, run_ensureOpenAt_of_closed hc ha, drawCalls_singleton, Act.run_bind]
      rfl

theorem course_fromFirst {f : List (Point α) → Act (Canvas σ α) Unit}
    {row : List (Point α) → List (Segment α)} (hf : ∀ zs, f zs = drawSegments (row zs))
    (zs : List (Point α)) : Course c ((match zs with
      | [] => pure ()
      | z :: rest => ensureOpenAt z >>= fun _ => f (z :: rest)).run c) := by
  cases zs with
  | nil => exact course_pure
  | cons z rest =>
    simp only [hf]
    exact course_bind_ensureOpenAt z _

variable [Scalar α]

theorem course_bind_points {as : List (Argument α)} {f : List (Point α) → Act (Canvas σ α) Unit}
    (hf : ∀ zs, Course c ((f zs).run c)) : Course c ((points as >>= f).run c) := by
  refine course_bind_of_reads (Act.run_ofExcept _ c) (fun n hn => ?_) fun zs _ => hf zs
  rcases hr : Argument.reals as with e | xs
  · rw [hr, Argument.reals_error hr] at hn
    cases hn
  · rw [hr] at hn
    cases hn

theorem course_goingOn {as : List (Argument α)}
    {f : Point α → List (Point α) → Act (Canvas σ α) Unit}
    {row : Point α → List (Point α) → List (Segment α)}
    (hf : ∀ z zs, f z zs = drawSegments (row z zs)) :
    Course c ((requireCurrent >>= fun z => points as >>= f z).run c) := by
  apply course_bind_requireCurrent
  intro z ho
  apply course_bind_points
  intro zs
  rw [hf]
  exact course_row _ ho

end Rules

section Commands

variable {c : Canvas σ α}

theorem course_lineThrough (zs : List (Point α)) : Course c ((lineThrough zs).run c) := by
  cases zs with
  | nil => exact course_pure
  | cons z rest =>
    rw [lineThrough, drawLines_eq_segments]
    exact course_bind_ensureOpenAt z _

variable [Scalar α]

theorem course_line (relative : Bool) (as : List (Argument α)) :
    Course c ((line relative as).run c) := by
  cases relative with
  | true => exact course_goingOn fun _ _ => drawLines_eq_segments _
  | false => exact course_bind_points course_lineThrough

theorem course_cubic (relative : Bool) (as : List (Argument α)) :
    Course c ((cubic relative as).run c) := by
  cases relative with
  | true => exact course_goingOn fun _ _ => drawCubics_eq_segments _
  | false => exact course_bind_points (course_fromFirst fun _ => drawCubics_eq_segments _)

theorem course_quadratic (relative : Bool) (as : List (Argument α)) :
    Course c ((quadratic relative as).run c) := by
  cases relative with
  | true => exact course_goingOn fun _ _ => drawQuadratics_eq_segments _
  | false => exact course_bind_points (course_fromFirst fun _ => drawQuadratics_eq_segments _)

theorem course_smoothCubic (relative : Bool) (as : List (Argument α)) :
    Course c ((smoothCubic relative as).run c) := by
  apply course_bind_requireControl
  intro k
  exact course_goingOn fun _ _ => drawCubics_eq_segments _

theorem course_smoothQuadratic (relative : Bool) (as : List (Argument α)) :
    Course c ((smoothQuadratic relative as).run c) := by
  apply course_bind_requireControl
  intro k
  exact course_goingOn fun _ _ => drawQuadratics_eq_segments _

/-- A walk along an axis breaks off at the first argument that is no number, with the lines up to
there drawn. -/
theorem course_axisLine (step : Point α → α → Point α) (as : List (Argument α)) :
    Course c ((axisLine step as).run c) := by
  apply course_bind_requireCurrent
  intro z ho
  rcases hr : Argument.reals as with e | xs
  · have he : ∀ n, e ≠ .notWritable n := by
      rw [Argument.reals_error hr]
      rintro n ⟨⟩
    rw [drawAlong_of_error step z hr]
    refine .brokenOff ((walk step z (Argument.readable as)).map .line) (fun _ => ho) e he ?_
    rw [List.map_map]
    rfl
  · rw [drawAlong_of_reals step z hr, drawLines_eq_segments]
    exact course_row _ ho

theorem course_carryOut {k : Command} (hk : k.verb.drawsSegments) (as : List (Argument α)) :
    Course c ((carryOut k as).run c) := by
  rw [carryOut]
  split
  · next hv => rw [hv] at hk; cases hk
  · exact course_line _ _
  · exact course_axisLine _ _
  · exact course_axisLine _ _
  · exact course_cubic _ _
  · exact course_smoothCubic _ _
  · exact course_quadratic _ _
  · exact course_smoothQuadratic _ _
  · next hv => rw [hv] at hk; cases hk
  · next hv => rw [hv] at hk; cases hk

theorem course_command {k : Command} (hk : k.verb.drawsSegments) (as : List (Argument α)) :
    Course c ((command k as).run c) := by
  rw [command]
  split
  · exact course_carryOut hk as
  · exact course_error fun n hn => by cases hn

end Commands

end Canvas

end Linework
