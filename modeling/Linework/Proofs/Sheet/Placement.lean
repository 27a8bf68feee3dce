import Linework.Proofs.Plane.RealPoint
import Linework.Proofs.Sheet.Segments

/-!
# Where a sheet places its points

A sheet keeps one matrix and a stack of matrices. What is placed by them is described here by the
motions themselves: those in force are a list in the order of their calls, and the last one is
applied to a point first. With exact coordinates, a sheet under any motions draws what a sheet
without any draws from the placed points.
-/

set_option autoImplicit false

namespace Linework

open Scalar

inductive Motion where
  | shift (d : Point ℝ)
  | stretch (k : Point ℝ)
  | turn (angle : ℝ)
  | affine (m : Affine ℝ)

inductive PathOrder where
  | begin
  | move (p : Point ℝ)
  | draw (g : Segment ℝ)
  | close

inductive SheetOrder where
  | path (o : PathOrder)
  | motion (t : Motion)
  | setTransform (m : Affine ℝ)
  | save
  | restore

namespace Argument

def ofAffine {α : Type} (m : Affine α) : Affine (Argument α) :=
  ⟨.number m.a, .number m.b, .number m.c, .number m.d, .number m.e, .number m.f⟩

end Argument

namespace Affine

theorem apply_real (m : Affine ℝ) (p : Point ℝ) :
    m.apply p = ⟨m.a * p.x + m.c * p.y + m.e, m.b * p.x + m.d * p.y + m.f⟩ := by
  simp [apply]

@[simp] theorem apply_identity_real (p : Point ℝ) : identity.apply p = p := by
  simp [apply_real, identity]

theorem apply_compose_real (m n : Affine ℝ) (p : Point ℝ) :
    (m.compose n).apply p = m.apply (n.apply p) := by
  ext <;> simp only [compose, apply_real, real_whole, Nat.cast_zero, Nat.cast_one] <;> ring

theorem real_rotation (angle : ℝ) : rotation angle =
    .ok ⟨Real.cos angle, Real.sin angle, -Real.sin angle, Real.cos angle, 0, 0⟩ := by
  simp [rotation, ok_bind, pure, Except.pure]

end Affine

namespace Motion

noncomputable def image : Motion → Point ℝ → Point ℝ
  | shift d, p => ⟨p.x + d.x, p.y + d.y⟩
  | stretch k, p => ⟨k.x * p.x, k.y * p.y⟩
  | turn angle, p =>
    ⟨Real.cos angle * p.x - Real.sin angle * p.y, Real.sin angle * p.x + Real.cos angle * p.y⟩
  | affine m, p => ⟨m.a * p.x + m.c * p.y + m.e, m.b * p.x + m.d * p.y + m.f⟩

/-- Where motions in the order of their calls place a point. -/
noncomputable def place (ts : List Motion) (p : Point ℝ) : Point ℝ := ts.foldr image p

noncomputable def matrix : Motion → Affine ℝ
  | shift d => Affine.shift d
  | stretch k => Affine.scaling k
  | turn angle => ⟨Real.cos angle, Real.sin angle, -Real.sin angle, Real.cos angle, 0, 0⟩
  | affine m => m

def call : Motion → Call ℝ
  | shift d => .translate (Argument.ofPoint d)
  | stretch k => .scale (Argument.ofPoint k)
  | turn angle => .rotate (.number angle)
  | affine m => .transform (Argument.ofAffine m)

theorem place_concat (ts : List Motion) (t : Motion) (p : Point ℝ) :
    place (ts ++ [t]) p = place ts (t.image p) := by
  simp [place]

theorem apply_matrix (t : Motion) (p : Point ℝ) : t.matrix.apply p = t.image p := by
  cases t with
  | shift d => simp [matrix, image, Affine.shift, Affine.apply_real]
  | stretch k => simp [matrix, image, Affine.scaling, Affine.apply_real]
  | turn angle => simp [matrix, image, Affine.apply_real, sub_eq_add_neg]
  | affine m => exact m.apply_real p

end Motion

namespace Segment

variable {α : Type}

def moved (f : Point α → Point α) : Segment α → Segment α
  | line z => .line (f z)
  | cubic c => .cubic ⟨f c.first, f c.second, f c.finish⟩
  | quadratic q => .quadratic ⟨f q.control, f q.finish⟩

theorem image_eq_part [Scalar α] (m : Affine α) (g : Segment α) :
    g.image m = (g.moved m.apply).part := by
  cases g <;> rfl

theorem finish_moved (f : Point α → Point α) (g : Segment α) :
    (g.moved f).finish = f g.finish := by
  cases g <;> rfl

end Segment

namespace PathOrder

def call : PathOrder → Call ℝ
  | begin => .beginPath
  | move p => .moveTo p
  | draw g => g.call
  | close => .closePath

def moved (f : Point ℝ → Point ℝ) : PathOrder → PathOrder
  | begin => begin
  | move p => move (f p)
  | draw g => draw (g.moved f)
  | close => close

theorem moved_moved_id {f h : Point ℝ → Point ℝ} (hh : ∀ p, h p = p) (o : PathOrder) :
    (o.moved f).moved h = o.moved f := by
  obtain rfl : h = id := funext hh
  cases o with
  | draw g => cases g <;> rfl
  | _ => rfl

end PathOrder

namespace SheetOrder

def call : SheetOrder → Call ℝ
  | path o => o.call
  | motion t => t.call
  | setTransform m => .setTransform (Argument.ofAffine m)
  | save => .save
  | restore => .restore

end SheetOrder

structure Framing where
  inForce : List Motion
  saved : List (List Motion)

namespace Framing

def initial : Framing := ⟨[], []⟩

/-- The motions in force after an order. Setting the transform forgets the ones before it. -/
def after (f : Framing) : SheetOrder → Framing
  | .path _ => f
  | .motion t => { f with inForce := f.inForce ++ [t] }
  | .setTransform m => { f with inForce := [.affine m] }
  | .save => { f with saved := f.inForce :: f.saved }
  | .restore =>
    match f.saved with
    | [] => f
    | ts :: rest => ⟨ts, rest⟩

noncomputable def placed (f : Framing) : List SheetOrder → List PathOrder
  | [] => []
  | .path o :: rest => o.moved (Motion.place f.inForce) :: f.placed rest
  | o :: rest => (f.after o).placed rest

theorem placed_of_aside (f : Framing) {o : SheetOrder} (ho : ∀ q, o ≠ .path q)
    (rest : List SheetOrder) : f.placed (o :: rest) = (f.after o).placed rest := by
  cases o with
  | path q => exact absurd rfl (ho q)
  | _ => rfl

end Framing

namespace Sheet

theorem nonFinite?_real (part : Part ℝ) : part.nonFinite? = none := by
  rw [Part.nonFinite?, List.findSome?_eq_none_iff]
  intro x _
  simp [Scalar.nonFinite?]

def opened (s : Sheet ℝ) (z : Point ℝ) : Sheet ℝ :=
  openAt z { s with backwards := .move z :: s.backwards }

def added (s : Sheet ℝ) (g : Segment ℝ) : Sheet ℝ :=
  setCurrent g.finish { s with backwards := g.part :: s.backwards }

/-- Adds a segment where no subpath is open: a line is only a move, and a curve starts at its first
control point. -/
def addedAlone (s : Sheet ℝ) : Segment ℝ → Sheet ℝ
  | .line z => s.opened z
  | .cubic c => (s.opened c.first).added (.cubic c)
  | .quadratic q => (s.opened q.control).added (.quadratic q)

structure SamePath (s t : Sheet ℝ) : Prop where
  backwards : s.backwards = t.backwards
  current : s.current = t.current
  start : s.start = t.start

theorem SamePath.transformed {s t : Sheet ℝ} (h : s.SamePath t) (m : Affine ℝ)
    (ms : List (Affine ℝ)) : { s with transform := m, saved := ms }.SamePath t :=
  ⟨h.backwards, h.current, h.start⟩

theorem SamePath.opened {s t : Sheet ℝ} (h : s.SamePath t) (z : Point ℝ) :
    (s.opened z).SamePath (t.opened z) :=
  ⟨congrArg (Part.move z :: ·) h.backwards, rfl, rfl⟩

theorem SamePath.added {s t : Sheet ℝ} (h : s.SamePath t) (g : Segment ℝ) :
    (s.added g).SamePath (t.added g) :=
  ⟨congrArg (g.part :: ·) h.backwards, rfl, h.start⟩

theorem SamePath.addedAlone {s t : Sheet ℝ} (h : s.SamePath t) (g : Segment ℝ) :
    (s.addedAlone g).SamePath (t.addedAlone g) := by
  cases g with
  | line z => exact h.opened z
  | cubic c => exact (h.opened c.first).added _
  | quadratic q => exact (h.opened q.control).added _

def lay (s : Sheet ℝ) : PathOrder → Sheet ℝ
  | .begin => s.beginPath
  | .move z => s.opened z
  | .draw g => if s.current.isNone then s.addedAlone g else s.added g
  | .close => s.closePath

theorem SamePath.lay {s t : Sheet ℝ} (h : s.SamePath t) (o : PathOrder) :
    (s.lay o).SamePath (t.lay o) := by
  cases o with
  | begin => exact ⟨rfl, rfl, rfl⟩
  | move z => exact h.opened z
  | draw g =>
    rw [Sheet.lay, Sheet.lay, h.current]
    split
    · exact h.addedAlone g
    · exact h.added g
  | close => exact ⟨congrArg (Part.close :: ·) h.backwards, h.start, h.start⟩

theorem lay_transform (s : Sheet ℝ) (o : PathOrder) : (s.lay o).transform = s.transform := by
  cases o with
  | draw g =>
    rw [lay]
    split
    · cases g <;> rfl
    · rfl
  | _ => rfl

theorem lay_saved (s : Sheet ℝ) (o : PathOrder) : (s.lay o).saved = s.saved := by
  cases o with
  | draw g =>
    rw [lay]
    split
    · cases g <;> rfl
    · rfl
  | _ => rfl

theorem run_startCurve_alone (p : Point ℝ) {s : Sheet ℝ} (hs : s.current = none) :
    (startCurve (.number p.x) (.number p.y)).run s = (.ok (), s.opened (s.map p)) := by
  rw [startCurve, Act.run_bind_ok (Act.run_get s), hs]
  change (moveTo p).run s = _
  rw [moveTo, Act.run_bind_ok (Act.run_get s),
    Act.run_bind_ok (run_append_of_finite (nonFinite?_real _) s)]
  rfl

/-- A matrix places points like a list of motions. -/
def Follows (m : Affine ℝ) (ts : List Motion) : Prop := ∀ p, m.apply p = Motion.place ts p

/-- A sheet that has its points placed by motions, and one that was given them where they are
placed. -/
structure Renders (f : Framing) (s t : Sheet ℝ) : Prop where
  inForce : Follows s.transform f.inForce
  saved : List.Forall₂ Follows s.saved f.saved
  plain : ∀ p, t.map p = p
  samePath : s.SamePath t

theorem renders_blank (width height fileName width' height' fileName' : String) :
    Renders .initial (blank width height fileName) (blank width' height' fileName') where
  inForce := Affine.apply_identity_real
  saved := .nil
  plain := Affine.apply_identity_real
  samePath := ⟨rfl, rfl, rfl⟩

theorem follows_compose {m : Affine ℝ} {ts : List Motion} (h : Follows m ts) (t : Motion) :
    Follows (m.compose t.matrix) (ts ++ [t]) := by
  intro p
  rw [Affine.apply_compose_real, Motion.apply_matrix, h, Motion.place_concat]

theorem follows_affine (m : Affine ℝ) : Follows m [.affine m] := fun p => m.apply_real p

theorem Renders.restore {f : Framing} {s t : Sheet ℝ} (h : Renders f s t) :
    Renders (f.after .restore) s.restore t := by
  obtain ⟨ts, tss⟩ := f
  have hsaved := h.saved
  rw [Sheet.restore]
  rcases hs : s.saved with _ | ⟨m, ms⟩
  · rw [hs] at hsaved
    cases hsaved
    exact h
  · rw [hs] at hsaved
    cases hsaved with
    | cons hm hms => exact ⟨hm, hms, h.plain, h.samePath.transformed _ _⟩

variable [HasAxes ℝ]

theorem run_moveTo_real (p : Point ℝ) (s : Sheet ℝ) :
    (Surface.perform (Call.moveTo p) : Act (Sheet ℝ) _).run s = (.ok [], s.opened (s.map p)) := by
  rw [run_perform_moveTo, nonFinite?_real]
  rfl

theorem run_segment_real (g : Segment ℝ) {s : Sheet ℝ} (hs : s.current ≠ none) :
    (Surface.perform g.call : Act (Sheet ℝ) _).run s = (.ok [], s.added (g.moved s.map)) := by
  rw [run_perform_segment g hs, nonFinite?_real, added, Segment.finish_moved]
  dsimp only
  rw [extended, Segment.image_eq_part]
  rfl

theorem run_lineTo_alone (z : Point ℝ) {s : Sheet ℝ} (hs : s.current = none) :
    (Surface.perform (Call.lineTo z) : Act (Sheet ℝ) _).run s = (.ok [], s.opened (s.map z)) := by
  have hp : (Surface.perform (Call.lineTo z) : Act (Sheet ℝ) _) = draw (lineTo z) := rfl
  have hrun : (lineTo z).run s =
      (append (.move (s.map z)) >>= fun _ => modify (openAt (s.map z))).run s := by
    rw [lineTo, Act.run_bind_ok (Act.run_get s), hs]
    rfl
  rw [hp, run_draw_append hrun, nonFinite?_real]
  rfl

theorem run_curve_alone {k : Call ℝ} {m : Act (Sheet ℝ) (List Warning)} {p : Point ℝ}
    (hk : (Surface.perform k : Act (Sheet ℝ) _) =
      (startCurve (.number p.x) (.number p.y) >>= fun _ => m))
    {s : Sheet ℝ} (hs : s.current = none) :
    (Surface.perform k : Act (Sheet ℝ) _).run s =
      (Surface.perform k : Act (Sheet ℝ) _).run (s.opened (s.map p)) := by
  have hopen : (s.opened (s.map p)).current.isNone = false := rfl
  rw [hk, Act.run_bind_ok (run_startCurve_alone p hs),
    Act.run_bind_ok (run_startCurve_of_current _ _ hopen)]

theorem run_segment_alone (g : Segment ℝ) {s : Sheet ℝ} (hs : s.current = none) :
    (Surface.perform g.call : Act (Sheet ℝ) _).run s = (.ok [], s.addedAlone (g.moved s.map)) := by
  have hopened : ∀ z, (s.opened z).current ≠ none := fun _ => Option.some_ne_none _
  cases g with
  | line z => exact run_lineTo_alone z hs
  | cubic c =>
    have hk : (Surface.perform c.call : Act (Sheet ℝ) _) =
        (startCurve (.number c.first.x) (.number c.first.y) >>= fun _ =>
          draw (cubicTo c.first c.second c.finish)) := rfl
    rw [Segment.call, run_curve_alone hk hs]
    exact run_segment_real (.cubic c) (hopened _)
  | quadratic q =>
    have hk : (Surface.perform q.call : Act (Sheet ℝ) _) =
        (startCurve (.number q.control.x) (.number q.control.y) >>= fun _ =>
          draw (quadraticTo q.control q.finish)) := rfl
    rw [Segment.call, run_curve_alone hk hs]
    exact run_segment_real (.quadratic q) (hopened _)

/-- With exact coordinates no order is refused, and it draws with its points where the transform in
force takes them. -/
theorem run_pathOrder (o : PathOrder) (s : Sheet ℝ) :
    (Surface.perform o.call : Act (Sheet ℝ) _).run s = (.ok [], s.lay (o.moved s.map)) := by
  cases o with
  | begin => rfl
  | move p => exact run_moveTo_real p s
  | draw g =>
    rw [PathOrder.call, PathOrder.moved, lay]
    cases hs : s.current with
    | none => exact run_segment_alone g hs
    | some p => exact run_segment_real g (hs ▸ Option.some_ne_none p)
  | close => rfl

theorem run_motion (t : Motion) (s : Sheet ℝ) :
    (Surface.perform t.call : Act (Sheet ℝ) _).run s = (.ok [], s.compose t.matrix) := by
  cases t with
  | turn angle =>
    change (Act.ofExcept (Affine.rotation angle) >>= fun m => change (compose m)).run s = _
    rw [Affine.real_rotation]
    rfl
  | _ => rfl

theorem run_setTransform (m : Affine ℝ) (s : Sheet ℝ) :
    (Surface.perform (Call.setTransform (Argument.ofAffine m)) : Act (Sheet ℝ) _).run s =
      (.ok [], { s with transform := m }) := rfl

theorem Renders.path {f : Framing} {s t : Sheet ℝ} (h : Renders f s t) (o : PathOrder) :
    ∃ s' t', (Surface.perform o.call : Act (Sheet ℝ) _).run s = (.ok [], s') ∧
      (Surface.perform (o.moved (Motion.place f.inForce)).call : Act (Sheet ℝ) _).run t =
        (.ok [], t') ∧ Renders f s' t' := by
  have hmap : s.map = Motion.place f.inForce := funext h.inForce
  refine ⟨_, _, run_pathOrder o s, run_pathOrder _ t, ?_⟩
  rw [hmap, PathOrder.moved_moved_id h.plain]
  refine ⟨?_, ?_, ?_, h.samePath.lay _⟩
  · rw [lay_transform]
    exact h.inForce
  · rw [lay_saved]
    exact h.saved
  · intro p
    rw [Sheet.map, lay_transform]
    exact h.plain p

theorem Renders.aside {f : Framing} {s t : Sheet ℝ} (h : Renders f s t) {o : SheetOrder}
    (ho : ∀ q, o ≠ .path q) :
    ∃ s', (Surface.perform o.call : Act (Sheet ℝ) _).run s = (.ok [], s') ∧
      Renders (f.after o) s' t := by
  cases o with
  | path q => exact absurd rfl (ho q)
  | motion q =>
    exact ⟨_, run_motion q s, follows_compose h.inForce q, h.saved, h.plain,
      h.samePath.transformed _ _⟩
  | setTransform m =>
    exact ⟨_, run_setTransform m s, follows_affine m, h.saved, h.plain,
      h.samePath.transformed _ _⟩
  | save =>
    exact ⟨_, rfl, h.inForce, .cons h.inForce h.saved, h.plain,
      h.samePath.transformed _ _⟩
  | restore => exact ⟨_, rfl, h.restore⟩

theorem Renders.run {f : Framing} {s t : Sheet ℝ} (h : Renders f s t) (orders : List SheetOrder) :
    ∃ s' t', Surface.performAll (orders.map SheetOrder.call) s = ([], none, s') ∧
      Surface.performAll ((f.placed orders).map PathOrder.call) t = ([], none, t') ∧
      s'.SamePath t' := by
  induction orders generalizing f s t with
  | nil => exact ⟨s, t, rfl, rfl, h.samePath⟩
  | cons o rest ih =>
    by_cases ho : ∃ q, o = .path q
    · obtain ⟨q, rfl⟩ := ho
      obtain ⟨s₁, t₁, hs, ht, h₁⟩ := h.path q
      obtain ⟨s', t', hs', ht', h'⟩ := ih h₁
      refine ⟨s', t', ?_, ?_, h'⟩
      · rw [List.map_cons, SheetOrder.call, Canvas.performAll_cons_ok hs, hs', List.nil_append]
      · rw [Framing.placed, List.map_cons, Canvas.performAll_cons_ok ht, ht', List.nil_append]
    · rw [not_exists] at ho
      obtain ⟨s₁, hs, h₁⟩ := h.aside ho
      obtain ⟨s', t', hs', ht', h'⟩ := ih h₁
      refine ⟨s', t', ?_, ?_, h'⟩
      · rw [List.map_cons, Canvas.performAll_cons_ok hs, hs', List.nil_append]
      · rwa [f.placed_of_aside ho]

/-- A sheet draws what a sheet without transforms draws from the placed points: the motions in
force are those since the transform was set last, the latest of them applied first, and restoring
brings back those of the matching save. -/
theorem parts_performAll_placed (orders : List SheetOrder) (width height fileName : String) :
    ∃ s t : Sheet ℝ,
      Surface.performAll (orders.map SheetOrder.call) (blank width height fileName) =
        ([], none, s) ∧
      Surface.performAll ((Framing.initial.placed orders).map PathOrder.call)
        (blank width height fileName) = ([], none, t) ∧
      s.parts = t.parts := by
  obtain ⟨s, t, hs, ht, h⟩ :=
    (renders_blank width height fileName width height fileName).run orders
  exact ⟨s, t, hs, ht, congrArg List.reverse h.backwards⟩

end Sheet

end Linework
