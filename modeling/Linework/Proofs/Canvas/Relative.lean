import Linework.Proofs.Canvas.Absolute
import Linework.Proofs.Canvas.Elements
import Linework.Proofs.Canvas.Likeness

/-!
# Relative commands are absolute ones

A relative command does what the absolute command does with its absolute arguments. For most
kinds of commands the two do exactly the same. A line along one axis is an offset of the whole
point if it is relative, which may turn a minus zero into a zero; it is the same as a number.
-/

set_option autoImplicit false

namespace Linework

open Outline (Verb Command)

namespace Canvas

section Absolute

variable {σ α : Type} [Scalar α] [Surface σ α] {c : Canvas σ α} {z : Point α}
  {as : List (Argument α)} {xs : List α}

omit [Scalar α] in
theorem run_bind_ensureOpenAt_of_current (hc : c.pen.current = some z) (w : Point α)
    (f : Unit → Act (Canvas σ α) Unit) : (ensureOpenAt w >>= f).run c = (f ()).run c :=
  Act.run_bind_ok (run_ensureOpenAt_of_open (Pen.isOpen_iff.mpr ⟨z, hc⟩))

omit [Scalar α] in
theorem run_lineThrough_of_current (hc : c.pen.current = some z) (zs : List (Point α)) :
    (lineThrough zs).run c = (drawLines zs).run c := by
  cases zs with
  | nil => rfl
  | cons w rest => exact run_bind_ensureOpenAt_of_current hc w _

theorem run_line_false (hc : c.pen.current = some z) (hr : Argument.reals as = .ok xs) :
    (line false as).run c = (drawLines (Point.pairs xs)).run c := by
  rw [line, if_neg Bool.false_ne_true, points_of_reals hr, pure_bind]
  exact run_lineThrough_of_current hc _

theorem run_line_true (hc : c.pen.current = some z) (hr : Argument.reals as = .ok xs) :
    (line true as).run c = (drawLines (displaced z (Point.pairs xs))).run c := by
  rw [line, if_pos rfl, Act.run_bind_ok (run_requireCurrent_of_some hc), points_of_reals hr,
    pure_bind]

theorem run_cubic_false (hc : c.pen.current = some z) (hr : Argument.reals as = .ok xs) :
    (cubic false as).run c = (drawCubics (CubicTo.group (Point.pairs xs))).run c := by
  rw [cubic, if_neg Bool.false_ne_true, points_of_reals hr, pure_bind]
  cases Point.pairs xs with
  | nil => rfl
  | cons w rest => exact run_bind_ensureOpenAt_of_current hc w _

theorem run_cubic_true (hc : c.pen.current = some z) (hr : Argument.reals as = .ok xs) :
    (cubic true as).run c =
      (drawCubics (CubicTo.resolve z (CubicTo.group (Point.pairs xs)))).run c := by
  rw [cubic, if_pos rfl, Act.run_bind_ok (run_requireCurrent_of_some hc), points_of_reals hr,
    pure_bind]

theorem run_quadratic_false (hc : c.pen.current = some z) (hr : Argument.reals as = .ok xs) :
    (quadratic false as).run c = (drawQuadratics (QuadraticTo.group (Point.pairs xs))).run c := by
  rw [quadratic, if_neg Bool.false_ne_true, points_of_reals hr, pure_bind]
  cases Point.pairs xs with
  | nil => rfl
  | cons w rest => exact run_bind_ensureOpenAt_of_current hc w _

theorem run_quadratic_true (hc : c.pen.current = some z) (hr : Argument.reals as = .ok xs) :
    (quadratic true as).run c =
      (drawQuadratics (QuadraticTo.resolve z (QuadraticTo.group (Point.pairs xs)))).run c := by
  rw [quadratic, if_pos rfl, Act.run_bind_ok (run_requireCurrent_of_some hc), points_of_reals hr,
    pure_bind]

end Absolute

section Exact

variable {σ : Type} [Surface σ Float] {c : Canvas σ Float} {z : Point Float}
  {as : List (Argument Float)} {xs : List Float}

theorem run_line_absolute (hc : c.pen.current = some z) {v : Verb}
    (hv : Slot.ofVerb v = [.across, .down]) (h : as.length % 2 = 0)
    (hr : Argument.reals as = .ok xs) :
    (line true as).run c = (line false (absolute v z as)).run c := by
  obtain ⟨ys, hys, hpairs⟩ := resolves_points hv h xs z hr
  rw [run_line_true hc hr, run_line_false hc hys]
  exact congrArg (fun zs => (drawLines zs).run c) hpairs.symm

theorem run_cubic_absolute (hc : c.pen.current = some z) (h : as.length % 6 = 0)
    (hr : Argument.reals as = .ok xs) :
    (cubic true as).run c = (cubic false (absolute .cubic z as)).run c := by
  obtain ⟨ys, hys, hgroup⟩ := resolves_cubics h xs z hr
  rw [run_cubic_true hc hr, run_cubic_false hc hys, hgroup]

theorem run_quadratic_absolute (hc : c.pen.current = some z) (h : as.length % 4 = 0)
    (hr : Argument.reals as = .ok xs) :
    (quadratic true as).run c = (quadratic false (absolute .quadratic z as)).run c := by
  obtain ⟨ys, hys, hgroup⟩ := resolves_quadratics (v := .quadratic) rfl h xs z hr
  rw [run_quadratic_true hc hr, run_quadratic_false hc hys, hgroup]

theorem smoothCubics_resolve (z k : Point Float) (qs : List (QuadraticTo Float)) :
    smoothCubics true z k qs = smoothCubics false z k (QuadraticTo.resolve z qs) := by
  induction qs generalizing z k with
  | nil => rfl
  | cons q rest ih =>
    simp only [smoothCubics, QuadraticTo.resolve, if_true, Bool.false_eq_true, if_false, ih]

theorem smoothQuadratics_displaced (z k : Point Float) (zs : List (Point Float)) :
    smoothQuadratics true z k zs = smoothQuadratics false z k (displaced z zs) := by
  induction zs generalizing z k with
  | nil => rfl
  | cons w rest ih =>
    simp only [smoothQuadratics, displaced, if_true, Bool.false_eq_true, if_false, ih,
      Point.add_comm w]

omit [Surface σ Float] in
/-- Two commands that go on from a control point do the same if they do so from every one. -/
theorem run_bind_requireControl_congr {curve : Curve}
    {f g : Point Float → Act (Canvas σ Float) Unit} (h : ∀ k, (f k).run c = (g k).run c) :
    (requireControl curve >>= f).run c = (requireControl curve >>= g).run c := by
  cases hk : c.pen.control curve with
  | none =>
    have hrun := run_requireControl_of_none hk
    rw [Act.run_bind_error hrun, Act.run_bind_error hrun]
  | some k =>
    have hrun := run_requireControl_of_some hk
    rw [Act.run_bind_ok hrun, Act.run_bind_ok hrun, h]

theorem run_smoothCubic_absolute (hc : c.pen.current = some z) (h : as.length % 4 = 0)
    (hr : Argument.reals as = .ok xs) :
    (smoothCubic true as).run c = (smoothCubic false (absolute .smoothCubic z as)).run c := by
  obtain ⟨ys, hys, hgroup⟩ := resolves_quadratics (v := .smoothCubic) rfl h xs z hr
  apply run_bind_requireControl_congr
  intro k
  rw [Act.run_bind_ok (run_requireCurrent_of_some hc),
    Act.run_bind_ok (run_requireCurrent_of_some hc), points_of_reals hr, points_of_reals hys,
    pure_bind, pure_bind, smoothCubics_resolve, hgroup]

theorem run_smoothQuadratic_absolute (hc : c.pen.current = some z) (h : as.length % 2 = 0)
    (hr : Argument.reals as = .ok xs) :
    (smoothQuadratic true as).run c =
      (smoothQuadratic false (absolute .smoothQuadratic z as)).run c := by
  obtain ⟨ys, hys, hpairs⟩ := resolves_points (v := .smoothQuadratic) rfl h xs z hr
  apply run_bind_requireControl_congr
  intro k
  rw [Act.run_bind_ok (run_requireCurrent_of_some hc),
    Act.run_bind_ok (run_requireCurrent_of_some hc), points_of_reals hr, points_of_reals hys,
    pure_bind, pure_bind, smoothQuadratics_displaced]
  exact congrArg (fun zs => (drawQuadratics (smoothQuadratics false z k zs)).run c) hpairs.symm

theorem current_of_arcSegment {a : ArcTo (Argument Float)} {finish : Point Float}
    {t : Canvas σ Float} (hc : c.pen.current = some z)
    (h : (arcSegment a finish).run c = (.ok (), t)) : t.pen.current = some finish := by
  rw [arcSegment] at h
  split at h
  · rw [run_lineThrough_of_current hc, ← List.nil_append [finish], drawLines_concat] at h
    rw [pen_of_drawThen h]
    rfl
  rw [Act.run_bind_ok (run_requireCurrent_of_some hc)] at h
  split at h
  · cases h
    rfl
  rcases hq : a.request finish with e | request
  · rw [hq, Act.ofExcept_error, Act.throw_bind] at h
    cases h
  rw [hq, Act.ofExcept_ok, pure_bind] at h
  rcases ha : request.toArc z true with e | arc
  · rw [ha, Act.ofExcept_error, Act.throw_bind] at h
    cases h
  rw [ha, Act.ofExcept_ok, pure_bind, ← drawThen_singleton] at h
  rw [pen_of_drawThen h]
  rfl

theorem arcSegment_congr (radii : Point (Argument Float))
    (rotation large clockwise : Argument Float) (e e' : Point (Argument Float))
    (finish : Point Float) :
    (arcSegment ⟨radii, rotation, large, clockwise, e⟩ finish : Act (Canvas σ Float) Unit) =
      arcSegment ⟨radii, rotation, large, clockwise, e'⟩ finish := rfl

theorem run_arcs_absolute (hc : c.pen.current = some z) (h : as.length % 7 = 0)
    (hr : Argument.reals as = .ok xs) :
    (arcs true (ArcTo.group as)).run c =
      (arcs false (ArcTo.group (absolute .arc z as))).run c := by
  refine groups_induction (motive := fun as => ∀ xs z (c : Canvas σ Float),
    c.pen.current = some z → Argument.reals as = .ok xs →
      (arcs true (ArcTo.group as)).run c =
        (arcs false (ArcTo.group (absolute .arc z as))).run c) ?_ ?_ as h xs z c hc hr
  · intro xs z c _ _
    rw [absolute_nil]
    rfl
  · intro g rest hg _ ih xs z c hc hr
    match g, hg with
    | [rx, ry, turn, large, clockwise, a, a'], _ =>
      obtain ⟨_, _, _, _, hr₁, -⟩ := Argument.reals_point_ok hr
      obtain ⟨_, _, _, _, hr₂, -⟩ := Argument.reals_point_ok hr₁
      obtain ⟨_, _, _, hr₃, -⟩ := Argument.reals_cons_ok hr₂
      obtain ⟨p, xs, ha, ha', hr₄, -⟩ := Argument.reals_point_ok hr₃
      have habsolute := absolute_arc ha ha' rx ry turn large clockwise z rest
      have hpoint : Argument.point ⟨a, a'⟩ = .ok p := by
        rw [Argument.point, ha, ha']
        rfl
      have hsum : Argument.point ⟨.number (z + p).x, .number (z + p).y⟩ = .ok (z + p) := rfl
      simp only [List.cons_append, List.nil_append]
      rw [habsolute]
      simp only [ArcTo.group]
      rw [arcs, if_pos rfl, arcs, if_neg Bool.false_ne_true,
        Act.run_bind_ok (run_requireCurrent_of_some hc)]
      simp only [hpoint, hsum, Act.ofExcept_ok, pure_bind]
      rw [arcSegment_congr]
      exact Act.run_bind_congr fun _ t hrun =>
        ih xs (z + p) t (current_of_arcSegment hc hrun) hr₄

theorem run_move_absolute (hc : c.pen.current = some z) (h : as.length % 2 = 0)
    (hr : Argument.reals as = .ok xs) :
    (move true as).run c = (move false (absolute .move z as)).run c := by
  match as with
  | [] =>
    rw [absolute_nil]
    rfl
  | [_] => cases h
  | a :: a' :: rest =>
    obtain ⟨p, xs, ha, ha', hrest, -⟩ := Argument.reals_point_ok hr
    have hwhole : rest.length % 2 = 0 := by
      rw [List.length_cons, List.length_cons] at h
      omega
    have hpoint : Argument.point ⟨a, a'⟩ = .ok p := by
      rw [Argument.point, ha, ha']
      rfl
    have hsum : Argument.point ⟨.number (z + p).x, .number (z + p).y⟩ = .ok (z + p) := rfl
    have hempty : (absolute .move (z + p) rest).isEmpty = rest.isEmpty := by
      rw [Bool.eq_iff_iff, List.isEmpty_iff_length_eq_zero, List.isEmpty_iff_length_eq_zero,
        length_absolute (by decide) hwhole]
    rw [absolute_point rfl ha ha', move, move]
    simp only [hpoint, hsum, Act.ofExcept_ok, pure_bind, hempty, if_true, Bool.false_eq_true,
      if_false]
    rw [Act.run_bind_ok (Act.run_get c), Act.run_bind_ok (Act.run_get c), hc, Option.getD_some]
    refine Act.run_bind_congr fun _ t hrun => ?_
    rw [moveTo, ← drawThen_singleton] at hrun
    have ht : t.pen.current = some (z + p) := by
      rw [pen_of_drawThen hrun]
      rfl
    split
    · rfl
    · exact run_line_absolute ht rfl hwhole hrest

end Exact

section Axes

variable {p q z : Point Float} {as : List (Argument Float)} {xs : List Float}

theorem isZero_whole_zero : Scalar.isZero (Scalar.whole 0 : Float) := by decide

/-- A number as a point on the second axis: the first coordinate is a zero, but perhaps not the
same, and the second one is that number. -/
theorem upward_alike {y : Float} (h : Scalar.isFinite y) :
    Scalar.isZero (Point.upward y).x ∧ Scalar.Alike (Point.upward y).y y := by
  have hzero : Scalar.isFinite (Scalar.whole 0 : Float) := by decide
  constructor
  · exact Binary64.isZero_sub (Binary64.isZero_zero_mul h)
      (Binary64.isZero_iff.mpr ⟨_, Binary64.unpack_one_mul_zero⟩)
  · have hsum : (Point.upward y).y = Scalar.whole 1 * y + Scalar.whole 0 * Scalar.whole 0 :=
      Binary64.add_comm _ _
    rw [hsum, Binary64.one_mul h]
    exact Binary64.add_isZero_alike y (Binary64.isZero_zero_mul hzero)

theorem walk_horizontal_alike (hr : Argument.reals as = .ok xs) (hx : Scalar.Alike p.x z.x)
    (hy : Scalar.Alike p.y q.y) :
    ∃ ys, Argument.reals (absolute .horizontal z as) = .ok ys ∧
      List.Forall₂ Point.Alike (walk (horizontalStep true) p xs)
        (walk (horizontalStep false) q ys) := by
  induction as generalizing xs p q z with
  | nil =>
    cases hr
    exact ⟨[], by rw [absolute_nil]; rfl, .nil⟩
  | cons a as ih =>
    obtain ⟨x, xs, ha, hrest, rfl⟩ := Argument.reals_cons_ok hr
    have hx' : Scalar.Alike (p.x + x) (z.x + x) := hx.add (.refl x)
    have hy' : Scalar.Alike (p.y + Scalar.whole 0) q.y :=
      (Binary64.add_isZero_alike p.y isZero_whole_zero).trans hy
    obtain ⟨ys, hys, hwalk⟩ := ih (p := ⟨p.x + x, p.y + Scalar.whole 0⟩) (q := ⟨z.x + x, q.y⟩)
      (z := ⟨z.x + x, z.y⟩) hrest hx' hy'
    have hstep : (horizontalStep true p x).Alike (horizontalStep false q (z.x + x)) := ⟨hx', hy'⟩
    rw [absolute_across rfl ha]
    exact ⟨_, Argument.reals_number_cons _ hys, .cons hstep hwalk⟩

theorem walk_vertical_alike (hr : Argument.reals as = .ok xs) (hf : ∀ x ∈ xs, Scalar.isFinite x)
    (hx : Scalar.Alike p.x q.x) (hy : Scalar.Alike p.y z.y) :
    ∃ ys, Argument.reals (absolute .vertical z as) = .ok ys ∧
      List.Forall₂ Point.Alike (walk (verticalStep true) p xs)
        (walk (verticalStep false) q ys) := by
  induction as generalizing xs p q z with
  | nil =>
    cases hr
    exact ⟨[], by rw [absolute_nil]; rfl, .nil⟩
  | cons a as ih =>
    obtain ⟨y, xs, ha, hrest, rfl⟩ := Argument.reals_cons_ok hr
    obtain ⟨hzero, hupward⟩ := upward_alike (hf y List.mem_cons_self)
    have hx' : Scalar.Alike (p.x + (Point.upward y).x) q.x :=
      (Binary64.add_isZero_alike p.x hzero).trans hx
    have hy' : Scalar.Alike (p.y + (Point.upward y).y) (z.y + y) := hy.add hupward
    obtain ⟨ys, hys, hwalk⟩ := ih (p := p + Point.upward y) (q := ⟨q.x, z.y + y⟩)
      (z := ⟨z.x, z.y + y⟩) hrest (fun x hmem => hf x (List.mem_cons_of_mem y hmem)) hx' hy'
    have hstep : (verticalStep true p y).Alike (verticalStep false q (z.y + y)) := ⟨hx', hy'⟩
    rw [absolute_down rfl ha]
    exact ⟨_, Argument.reals_number_cons _ hys, .cons hstep hwalk⟩

theorem run_axisLine {c : Canvas (Recording Float) Float} (hc : c.pen.current = some z)
    (hr : Argument.reals as = .ok xs) (step : Point Float → Float → Point Float) :
    (axisLine step as).run c = (.ok (), c.lined (walk step z xs)) := by
  rw [axisLine, Act.run_bind_ok (run_requireCurrent_of_some hc), drawAlong_of_reals step z hr,
    run_drawLines]

end Axes

section Commands

variable {c : Canvas (Recording Float) Float} {z : Point Float} {as : List (Argument Float)}
  {xs : List Float}

structure AlikeResults {β : Type} (r r' : β × Canvas (Recording Float) Float) : Prop where
  result : r.1 = r'.1
  canvas : r.2.Alike r'.2

theorem AlikeResults.of_eq {β : Type} {r r' : β × Canvas (Recording Float) Float} (h : r = r') :
    AlikeResults r r' :=
  ⟨congrArg Prod.fst h, h ▸ .refl r.2⟩

theorem carryOut_absolute {v : Verb} (hv : v ≠ .close) (hc : c.pen.current = some z)
    (hr : Argument.reals as = .ok xs) (hf : ∀ x ∈ xs, Scalar.isFinite x)
    (h : as.length % v.groupSize = 0) :
    AlikeResults ((carryOut ⟨v, true⟩ as).run c)
      ((carryOut ⟨v, false⟩ (absolute v z as)).run c) := by
  cases v with
  | move => exact .of_eq (run_move_absolute hc h hr)
  | line => exact .of_eq (run_line_absolute hc rfl h hr)
  | horizontal =>
    obtain ⟨ys, hys, hwalk⟩ :=
      walk_horizontal_alike (z := z) (p := z) (q := z) hr (.refl _) (.refl _)
    simp only [carryOut]
    rw [run_axisLine hc hr, run_axisLine hc hys]
    exact ⟨rfl, alike_lined c hwalk⟩
  | vertical =>
    obtain ⟨ys, hys, hwalk⟩ :=
      walk_vertical_alike (z := z) (p := z) (q := z) hr hf (.refl _) (.refl _)
    simp only [carryOut]
    rw [run_axisLine hc hr, run_axisLine hc hys]
    exact ⟨rfl, alike_lined c hwalk⟩
  | cubic => exact .of_eq (run_cubic_absolute hc h hr)
  | smoothCubic => exact .of_eq (run_smoothCubic_absolute hc h hr)
  | quadratic => exact .of_eq (run_quadratic_absolute hc h hr)
  | smoothQuadratic => exact .of_eq (run_smoothQuadratic_absolute hc h hr)
  | arc => exact .of_eq (run_arcs_absolute hc h hr)
  | close => exact absurd rfl hv

theorem exists_reals {p : Float → Prop} (h : ∀ a ∈ as, ∃ x, a.real = .ok x ∧ p x) :
    ∃ xs, Argument.reals as = .ok xs ∧ ∀ x ∈ xs, p x := by
  induction as with
  | nil => exact ⟨[], rfl, by simp⟩
  | cons a as ih =>
    obtain ⟨x, ha, hx⟩ := h a List.mem_cons_self
    obtain ⟨xs, hr, hxs⟩ := ih fun b hb => h b (List.mem_cons_of_mem a hb)
    refine ⟨x :: xs, ?_, List.forall_mem_cons.mpr ⟨hx, hxs⟩⟩
    rw [Argument.reals, ha, hr]
    rfl

theorem alikeResults_quietly {m m' : Act (Canvas (Recording Float) Float) Unit}
    (h : AlikeResults (m.run c) (m'.run c)) :
    AlikeResults ((quietly m).run c) ((quietly m').run c) := by
  obtain ⟨hresult, hcanvas⟩ := h
  rw [run_quietly, run_quietly]
  rcases hm : m.run c with ⟨e | ⟨⟩, t⟩ <;> rcases hm' : m'.run c with ⟨e' | ⟨⟩, t'⟩ <;>
    rw [hm, hm'] at hresult hcanvas
  · cases hresult
    exact ⟨rfl, hcanvas⟩
  · cases hresult
  · cases hresult
  · exact ⟨rfl, hcanvas⟩

/-- A relative command with arguments that are finite numbers, as many as it takes, answers or
fails as the absolute command does with its absolute arguments, and leads to a canvas that is
alike. -/
theorem step_relative_alike {v : Verb} (hv : v ≠ .close) (hc : c.pen.current = some z)
    (hacc : accepts ⟨v, true⟩ as.length)
    (hf : ∀ a ∈ as, ∃ x, a.real = .ok x ∧ Scalar.isFinite x) :
    AlikeResults (step (.command ⟨v, true⟩ as) c)
      (step (.command ⟨v, false⟩ (absolute v z as)) c) := by
  obtain ⟨xs, hr, hxs⟩ := exists_reals hf
  have hgroups := groups_of_accepts hv hacc
  have hlength := length_absolute hv hgroups z
  have hacc' : accepts ⟨v, false⟩ (absolute v z as).length := by
    rw [hlength]
    exact hacc
  apply alikeResults_quietly
  rw [command, if_pos hacc, command, if_pos hacc']
  exact carryOut_absolute hv hc hr hxs hgroups

theorem step_relative_alike_up_down :
    let c : Canvas (Recording Float) Float :=
      (step (.command ⟨.move, false⟩ (Argument.ofNumbers [3, 4])) (fresh .empty true .radians)).2
    AlikeResults (step (.command ⟨.vertical, true⟩ (Argument.ofNumbers [5, -2])) c)
      (step (.command ⟨.vertical, false⟩ (Argument.ofNumbers [9, 7])) c) := by
  intro c
  have habsolute : absolute .vertical (⟨3, 4⟩ : Point Float) (Argument.ofNumbers [5, -2]) =
      Argument.ofNumbers [9, 7] := by
    have hfirst : (4 + 5 : Float) = 9 := by decide +kernel
    have hsecond : (9 + -2 : Float) = 7 := by decide +kernel
    simp only [Argument.ofNumbers, List.map_cons, List.map_nil]
    rw [absolute_down rfl rfl, absolute_down rfl rfl, absolute_nil, hfirst, hsecond]
  have hfinite : ∀ a ∈ (Argument.ofNumbers [5, -2] : List (Argument Float)),
      ∃ x, a.real = .ok x ∧ Scalar.isFinite x := by
    have hnumbers : ∀ x ∈ [5, -2], Scalar.isFinite (x : Float) := by decide +kernel
    intro a ha
    obtain ⟨x, hx, rfl⟩ := List.mem_map.mp ha
    exact ⟨x, rfl, hnumbers x hx⟩
  have h := step_relative_alike (v := .vertical) (z := ⟨3, 4⟩) (c := c) (by decide) rfl (by decide)
    hfinite
  rwa [habsolute] at h

end Commands

end Canvas

end Linework
