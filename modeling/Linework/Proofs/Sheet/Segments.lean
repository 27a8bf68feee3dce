import Linework.Proofs.Canvas.Course
import Linework.Sheet.Basic

/-!
# Segments on a sheet

A sheet with a current point adds one part for each segment, at its image under the transform in
force, and goes on from there. It refuses a part with a coordinate that is not finite and is then
as it was before. So a row of segments is drawn in full or up to the first that is refused.
-/

set_option autoImplicit false

namespace Linework

def Segment.part {α : Type} : Segment α → Part α
  | line z => .line z
  | cubic c => .cubic c.first c.second c.finish
  | quadratic q => .quadratic q.control q.finish

variable {α : Type} [Scalar α]

def Segment.image (m : Affine α) : Segment α → Part α
  | line z => .line (m.apply z)
  | cubic c => .cubic (m.apply c.first) (m.apply c.second) (m.apply c.finish)
  | quadratic q => .quadratic (m.apply q.control) (m.apply q.finish)

namespace Sheet

def begun (s : Sheet α) (z : Point α) : Sheet α :=
  openAt (s.map z) { s with backwards := .move (s.map z) :: s.backwards }

def extended (s : Sheet α) (g : Segment α) : Sheet α :=
  setCurrent (s.map g.finish) { s with backwards := g.image s.transform :: s.backwards }

def extendedAll (s : Sheet α) (gs : List (Segment α)) : Sheet α := gs.foldl extended s

@[simp] theorem extendedAll_nil (s : Sheet α) : s.extendedAll [] = s := rfl

@[simp] theorem extendedAll_concat (s : Sheet α) (gs : List (Segment α)) (g : Segment α) :
    s.extendedAll (gs ++ [g]) = (s.extendedAll gs).extended g := by
  simp [extendedAll]

@[simp] theorem extendedAll_transform (s : Sheet α) (gs : List (Segment α)) :
    (s.extendedAll gs).transform = s.transform := by
  induction gs generalizing s with
  | nil => rfl
  | cons g rest ih => exact ih (s.extended g)

@[simp] theorem extendedAll_map (s : Sheet α) (gs : List (Segment α)) (z : Point α) :
    (s.extendedAll gs).map z = s.map z := by
  rw [map, extendedAll_transform, map]

@[simp] theorem extendedAll_start (s : Sheet α) (gs : List (Segment α)) :
    (s.extendedAll gs).start = s.start := by
  induction gs generalizing s with
  | nil => rfl
  | cons g rest ih => exact ih (s.extended g)

theorem extendedAll_concat_current (s : Sheet α) (gs : List (Segment α)) (g : Segment α) :
    (s.extendedAll (gs ++ [g])).current = some (s.map g.finish) := by
  rw [extendedAll_concat, extended, setCurrent, extendedAll_map]

theorem extendedAll_concat_backwards (s : Sheet α) (gs : List (Segment α)) (g : Segment α) :
    (s.extendedAll (gs ++ [g])).backwards =
      g.image s.transform :: (s.extendedAll gs).backwards := by
  rw [extendedAll_concat, extended, setCurrent, extendedAll_transform]

theorem run_append_of_finite {part : Part α} (h : part.nonFinite? = none) (s : Sheet α) :
    (append part).run s = (.ok (), { s with backwards := part :: s.backwards }) := by
  rw [append, h]
  rfl

theorem run_append_of_nonFinite {part : Part α} {n : NonFinite} (h : part.nonFinite? = some n)
    (s : Sheet α) : (append part).run s = (.error (.notWritable n), s) := by
  rw [append, h]
  rfl

/-- An action that only adds a part and then moves fails if the part is refused. -/
theorem run_draw_append {m : Act (Sheet α) Unit} {part : Part α} {f : Sheet α → Sheet α}
    {s : Sheet α} (h : m.run s = (append part >>= fun _ => modify f).run s) :
    (draw m).run s =
      match part.nonFinite? with
      | none => (.ok [], f { s with backwards := part :: s.backwards })
      | some n => (.error (.notWritable n), s) := by
  cases hn : part.nonFinite? with
  | none =>
    rw [Act.run_bind_ok (run_append_of_finite hn s), Act.run_modify] at h
    rw [draw, Act.run_bind_ok h, Act.run_pure]
  | some n =>
    rw [Act.run_bind_error (run_append_of_nonFinite hn s)] at h
    rw [draw, Act.run_bind_error h]

theorem run_ensureCurrent_of_current (z : Point α) {s : Sheet α} (hs : s.current.isNone = false) :
    (ensureCurrent z).run s = (.ok (), s) := by
  rw [ensureCurrent, Act.run_bind_ok (Act.run_get s), hs]
  rfl

theorem run_startCurve_of_current (x y : Argument α) {s : Sheet α}
    (hs : s.current.isNone = false) : (startCurve x y).run s = (.ok (), s) := by
  rw [startCurve, Act.run_bind_ok (Act.run_get s), hs]
  rfl

variable [HasAxes α]

theorem run_perform_moveTo (z : Point α) (s : Sheet α) :
    (Surface.perform (Call.moveTo z) : Act (Sheet α) _).run s =
      match (Part.move (s.map z)).nonFinite? with
      | none => (.ok [], s.begun z)
      | some n => (.error (.notWritable n), s) := by
  have hp : (Surface.perform (Call.moveTo z) : Act (Sheet α) _) = draw (moveTo z) := rfl
  rw [hp]
  exact run_draw_append rfl

theorem run_perform_segment (g : Segment α) {s : Sheet α} (hs : s.current ≠ none) :
    (Surface.perform g.call : Act (Sheet α) _).run s =
      match (g.image s.transform).nonFinite? with
      | none => (.ok [], s.extended g)
      | some n => (.error (.notWritable n), s) := by
  have hopen : s.current.isNone = false := by
    rwa [Option.isNone_eq_false_iff, Option.isSome_iff_ne_none]
  cases g with
  | line z =>
    have hp : (Surface.perform (Call.lineTo z) : Act (Sheet α) _) = draw (lineTo z) := rfl
    rw [Segment.call, hp]
    apply run_draw_append
    rw [lineTo, Act.run_bind_ok (Act.run_get s), hopen]
    rfl
  | cubic c =>
    have hp : (Surface.perform c.call : Act (Sheet α) _) =
        (startCurve (.number c.first.x) (.number c.first.y) >>= fun _ =>
          draw (cubicTo c.first c.second c.finish)) := rfl
    rw [Segment.call, hp, Act.run_bind_ok (run_startCurve_of_current _ _ hopen)]
    apply run_draw_append
    rw [cubicTo, Act.run_bind_ok (run_ensureCurrent_of_current _ hopen),
      Act.run_bind_ok (Act.run_get s)]
    rfl
  | quadratic q =>
    have hp : (Surface.perform q.call : Act (Sheet α) _) =
        (startCurve (.number q.control.x) (.number q.control.y) >>= fun _ =>
          draw (quadraticTo q.control q.finish)) := rfl
    rw [Segment.call, hp, Act.run_bind_ok (run_startCurve_of_current _ _ hopen)]
    apply run_draw_append
    rw [quadraticTo, Act.run_bind_ok (run_ensureCurrent_of_current _ hopen),
      Act.run_bind_ok (Act.run_get s)]
    rfl

theorem performAll_segments (gs : List (Segment α)) {s : Sheet α}
    (hs : gs ≠ [] → s.current ≠ none) :
    Surface.performAll (gs.map Segment.call) s = ([], none, s.extendedAll gs) ∨
      ∃ done g rest n, gs = done ++ g :: rest ∧ (g.image s.transform).nonFinite? = some n ∧
        Surface.performAll (gs.map Segment.call) s =
          ([], some (.notWritable n), s.extendedAll done) := by
  induction gs generalizing s with
  | nil => exact .inl rfl
  | cons g rest ih =>
    have hg := run_perform_segment g (hs (List.cons_ne_nil g rest))
    cases hn : (g.image s.transform).nonFinite? with
    | some n =>
      rw [hn] at hg
      exact .inr ⟨[], g, rest, n, rfl, hn, Canvas.performAll_cons_error hg⟩
    | none =>
      rw [hn] at hg
      rw [List.map_cons, Canvas.performAll_cons_ok hg]
      have hcur : (s.extended g).current ≠ none := Option.some_ne_none _
      rcases ih fun _ => hcur with hall | ⟨done, g', rest', n, rfl, hn', hstop⟩
      · rw [hall]
        exact .inl rfl
      · rw [hstop]
        exact .inr ⟨g :: done, g', rest', n, rfl, hn', rfl⟩

end Sheet

namespace Canvas

def begun (c : Canvas (Sheet α) α) (z : Point α) : Canvas (Sheet α) α :=
  { c with surface := c.surface.begun z, pen := c.pen.openAt z }

/-- A canvas on which segments were drawn that the pen has not followed. -/
def behind (c : Canvas (Sheet α) α) (gs : List (Segment α)) : Canvas (Sheet α) α :=
  { c with surface := c.surface.extendedAll gs }

def drawn (c : Canvas (Sheet α) α) (gs : List (Segment α)) : Canvas (Sheet α) α :=
  { c with surface := c.surface.extendedAll gs, pen := c.pen.followAll gs }

variable [HasAxes α]

theorem run_drawCalls_segments (gs : List (Segment α)) {c : Canvas (Sheet α) α}
    (hs : gs ≠ [] → c.surface.current ≠ none) :
    (drawCalls (gs.map Segment.call)).run c = (.ok (), c.behind gs) ∨
      ∃ done g rest n, gs = done ++ g :: rest ∧
        (g.image c.surface.transform).nonFinite? = some n ∧
        (drawCalls (gs.map Segment.call)).run c = (.error (.notWritable n), c.behind done) := by
  rcases Sheet.performAll_segments gs hs with hall | ⟨done, g, rest, n, hgs, hn, hstop⟩
  · exact .inl (run_drawCalls_ok hall)
  · exact .inr ⟨done, g, rest, n, hgs, hn, run_drawCalls_error hstop⟩

/-- A row that is refused leaves the pen where it was, and the parts before the refused one on the
sheet. -/
theorem run_drawSegments (gs : List (Segment α)) {c : Canvas (Sheet α) α}
    (hs : gs ≠ [] → c.surface.current ≠ none) :
    (drawSegments gs).run c = (.ok (), c.drawn gs) ∨
      ∃ done g rest n, gs = done ++ g :: rest ∧
        (g.image c.surface.transform).nonFinite? = some n ∧
        (drawSegments gs).run c = (.error (.notWritable n), c.behind done) := by
  rcases run_drawCalls_segments gs hs with hall | ⟨done, g, rest, n, hgs, hn, hstop⟩
  · left
    rw [drawSegments, drawThen, Act.run_bind_ok hall, run_movePen]
    rfl
  · right
    refine ⟨done, g, rest, n, hgs, hn, ?_⟩
    rw [drawSegments, drawThen, Act.run_bind_error hstop]

theorem run_draw_moveTo_of_finite {z : Point α} {c : Canvas (Sheet α) α}
    (h : (Part.move (c.surface.map z)).nonFinite? = none) :
    (draw (.moveTo z)).run c = (.ok (), { c with surface := c.surface.begun z }) := by
  have hp := Sheet.run_perform_moveTo z c.surface
  rw [h] at hp
  exact run_draw_ok hp

theorem run_draw_moveTo_of_nonFinite {z : Point α} {c : Canvas (Sheet α) α} {n : NonFinite}
    (h : (Part.move (c.surface.map z)).nonFinite? = some n) :
    (draw (.moveTo z)).run c = (.error (.notWritable n), c) := by
  have hp := Sheet.run_perform_moveTo z c.surface
  rw [h] at hp
  exact run_draw_error hp

end Canvas

end Linework
