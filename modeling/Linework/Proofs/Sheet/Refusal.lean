import Linework.Proofs.Sheet.Agreement

/-!
# Agreement after a refused coordinate

A command of lines and curves asks for its segments one after the other and moves the pen once all
of them are drawn. Where the sheet refuses one, those before it stay drawn and the pen has followed
none of them. So the pen agrees with the sheet only if nothing was drawn, or if the last segment
drawn happens to lead back to where the pen is.
-/

set_option autoImplicit false

namespace Linework

open Outline (Command)

def Curve.verb : Curve → Outline.Verb
  | .cubic => .cubic
  | .quadratic => .quadratic

theorem Segment.image_verb_iff {α : Type} [Scalar α] (m : Affine α) (g : Segment α)
    (curve : Curve) : (g.image m).verb = curve.verb ↔ g.curve? = some curve := by
  cases g <;> cases curve <;> simp [Segment.image, Part.verb, Curve.verb, Segment.curve?]

namespace Canvas

variable {α : Type}

/-- Whether a control point is kept only while the path ends with a curve of its sort. -/
def ControlsFit (c : Canvas (Sheet α) α) : Prop :=
  ∀ curve, c.pen.control curve ≠ none →
    c.surface.parts.getLast?.map Part.verb = some curve.verb

theorem controlsFit_of_openAt {c : Canvas (Sheet α) α} {z : Point α} {p : Pen α}
    (h : c.pen = p.openAt z) : c.ControlsFit := by
  intro curve hcurve
  rw [h] at hcurve
  cases curve <;> exact absurd rfl hcurve

variable [Scalar α]

theorem agrees_behind_iff {c : Canvas (Sheet α) α} (hc : c.Agrees) {z : Point α}
    (hz : c.pen.current = some z) (done : List (Segment α)) :
    (c.behind done).Agrees ↔ ∀ g ∈ done.getLast?, c.surface.map g.finish = c.surface.map z := by
  have hmap (w : Point α) : (c.behind done).surface.map w = c.surface.map w :=
    Sheet.extendedAll_map c.surface done w
  have hstart : (c.behind done).surface.start = c.surface.start :=
    Sheet.extendedAll_start c.surface done
  rcases List.eq_nil_or_concat' done with rfl | ⟨init, g, rfl⟩
  · simpa [behind] using hc
  have hcurrent : (c.behind (init ++ [g])).surface.current = some (c.surface.map g.finish) :=
    Sheet.extendedAll_concat_current c.surface init g
  rw [List.getLast?_concat]
  constructor
  · intro h g' hg
    have himage := h.current z hz
    rw [hcurrent, hmap] at himage
    rw [← Option.some.inj hg]
    exact Option.some.inj himage
  · intro h
    constructor
    · intro w hw
      have hwz : w = z := Option.some.inj (hw.symm.trans hz)
      rw [hcurrent, hmap, hwz, h g rfl]
    · intro w hw
      rw [hstart, hmap, hc.start w hw]

theorem controlsFit_behind_iff {c : Canvas (Sheet α) α} (hc : c.ControlsFit)
    (done : List (Segment α)) :
    (c.behind done).ControlsFit ↔
      ∀ g ∈ done.getLast?, ∀ curve, c.pen.control curve ≠ none → g.curve? = some curve := by
  rcases List.eq_nil_or_concat' done with rfl | ⟨init, g, rfl⟩
  · simpa [behind] using hc
  have hlast : (c.behind (init ++ [g])).surface.parts.getLast? =
      some (g.image c.surface.transform) := by
    rw [behind, Sheet.parts, Sheet.extendedAll_concat_backwards, List.reverse_cons,
      List.getLast?_concat]
  rw [ControlsFit, hlast, List.getLast?_concat]
  simp [Segment.image_verb_iff, behind]

theorem agrees_ahead_iff (c : Canvas (Sheet α) α) (z : Point α) :
    (c.withPen fun p => p.openAt z).Agrees ↔
      c.surface.current = some (c.surface.map z) ∧ c.surface.start = some (c.surface.map z) := by
  constructor
  · intro h
    exact ⟨h.current z rfl, h.start z rfl⟩
  · rintro ⟨hc, hs⟩
    constructor
    · rintro w ⟨⟩
      exact hc
    · rintro w ⟨⟩
      exact hs

variable [HasAxes α]

/-- What a command leaves behind of a canvas if a coordinate is refused: the pen is where it was,
or else at the first point; and either opening a subpath there was refused and the sheet is as it
was, or it has some segments and then refused the next one. -/
inductive CutShort (n : NonFinite) (c : Canvas (Sheet α) α) : Canvas (Sheet α) α → Prop
  | opening (hc : c.pen.isOpen = false) (z : Point α)
      (hn : (Part.move (c.surface.map z)).nonFinite? = some n) :
      CutShort n c (c.withPen fun p => p.openAt z)
  | going (ho : c.pen.isOpen) (done : List (Segment α)) (g : Segment α)
      (hn : (g.image c.surface.transform).nonFinite? = some n) :
      CutShort n c (c.behind done)
  | opened (hc : c.pen.isOpen = false) (z : Point α) (done : List (Segment α)) (g : Segment α)
      (hn : (g.image c.surface.transform).nonFinite? = some n) :
      CutShort n c ((c.begun z).behind done)

theorem cutShort_of_course {c t : Canvas (Sheet α) α} {n : NonFinite} (hc : c.Agrees)
    (h : Course c (.error (.notWritable n), t)) : CutShort n c t := by
  have hcurrent {gs : List (Segment α)} (ho : gs ≠ [] → c.pen.isOpen) :
      gs ≠ [] → c.surface.current ≠ none := fun hne => hc.surface_current (ho hne)
  cases h with
  | row gs ho hr =>
    rcases run_drawSegments gs (hcurrent ho) with hall | ⟨done, g, rest, m, rfl, hm, hstop⟩
    · rw [hall] at hr
      cases hr
    · rw [hstop] at hr
      cases hr
      exact .going (ho (by simp)) done g hm
  | brokenOff gs ho e he hr =>
    rcases run_drawCalls_segments gs (hcurrent ho) with hall | ⟨done, g, rest, m, rfl, hm, hstop⟩
    · rw [Act.run_bind_ok hall, Act.run_throw] at hr
      cases hr
      exact absurd rfl (he n)
    · rw [Act.run_bind_error hstop] at hr
      cases hr
      exact .going (ho (by simp)) done g hm
  | opened z gs ho hr =>
    cases hm : (Part.move (c.surface.map z)).nonFinite? with
    | some m =>
      have hmove := run_draw_moveTo_of_nonFinite (c := c.withPen fun p => p.openAt z) hm
      rw [Act.run_bind_error hmove] at hr
      cases hr
      exact .opening ho z hm
    | none =>
      have hmove : (draw (.moveTo z)).run (c.withPen fun p => p.openAt z) = (.ok (), c.begun z) :=
        run_draw_moveTo_of_finite hm
      rw [Act.run_bind_ok hmove] at hr
      rcases run_drawSegments gs (c := c.begun z) (fun _ => Option.some_ne_none _) with
        hall | ⟨done, g, rest, k, rfl, hk, hstop⟩
      · rw [hall] at hr
        cases hr
      · rw [hstop] at hr
        cases hr
        exact .opened ho z done g hk

theorem cutShort_of_refused {k : Command} (hk : k.verb.drawsSegments) {as : List (Argument α)}
    {c : Canvas (Sheet α) α} (hc : c.Agrees) {n : NonFinite}
    (h : (step (.command k as) c).1 = .error (.notWritable n)) :
    CutShort n c (step (.command k as) c).2 := by
  have hcourse : Course c ((command k as).run c) := course_command hk as
  rcases hrun : (command k as).run c with ⟨e | u, t⟩
  · rw [step, act, quietly, Act.run_bind_error hrun] at h ⊢
    cases h
    rw [hrun] at hcourse
    exact cutShort_of_course hc hcourse
  · rw [step, act, quietly, Act.run_bind_ok hrun] at h
    cases h

/-- After a command of lines or curves that failed because a coordinate was refused, the pen and
the sheet are in one of three cases. Opening a subpath was refused, and they agree only if the
sheet happened to be there; or a subpath was opened or open already, and they agree only if no
segment was drawn or the last one ends where the current point is. A control point that the pen
has kept fits the last part only if the last segment drawn is a curve of its sort. -/
theorem agrees_refused_iff {k : Command} (hk : k.verb.drawsSegments) (as : List (Argument α))
    {c : Canvas (Sheet α) α} (hc : c.Agrees) {n : NonFinite}
    (h : (step (.command k as) c).1 = .error (.notWritable n)) :
    let t := (step (.command k as) c).2
    (∃ z, c.pen.isOpen = false ∧ (Part.move (c.surface.map z)).nonFinite? = some n ∧
      t = c.withPen (fun p => p.openAt z) ∧ t.ControlsFit ∧
      (t.Agrees ↔ c.surface.current = some (c.surface.map z) ∧
        c.surface.start = some (c.surface.map z))) ∨
    (∃ z done g, c.pen.isOpen = false ∧
      (Segment.image c.surface.transform g).nonFinite? = some n ∧
      t = (c.begun z).behind done ∧ t.ControlsFit ∧
      (t.Agrees ↔ ∀ g ∈ done.getLast?, c.surface.map g.finish = c.surface.map z)) ∨
    (∃ z done g, c.pen.current = some z ∧
      (Segment.image c.surface.transform g).nonFinite? = some n ∧ t = c.behind done ∧
      (c.ControlsFit → (t.ControlsFit ↔
        ∀ g ∈ done.getLast?, ∀ curve, c.pen.control curve ≠ none → g.curve? = some curve)) ∧
      (t.Agrees ↔ ∀ g ∈ done.getLast?, c.surface.map g.finish = c.surface.map z)) := by
  intro t
  have hcut : CutShort n c t := cutShort_of_refused hk hc h
  clear_value t
  cases hcut with
  | opening ho z hn =>
    exact .inl ⟨z, ho, hn, rfl, controlsFit_of_openAt rfl, agrees_ahead_iff c z⟩
  | opened ho z done g hn =>
    exact .inr (.inl ⟨z, done, g, ho, hn, rfl, controlsFit_of_openAt rfl,
      agrees_behind_iff (.begun c z) rfl done⟩)
  | going ho done g hn =>
    obtain ⟨z, hz⟩ := Pen.isOpen_iff.mp ho
    exact .inr (.inr ⟨z, done, g, hz, hn, rfl, fun hf => controlsFit_behind_iff hf done,
      agrees_behind_iff hc hz done⟩)

theorem agrees_refused_iff_at_opening :
    let c : Canvas (Sheet Float) Float := fresh (Sheet.default "drawing.svg") true .radians
    let op : Op Float := .command ⟨.line, false⟩ [.number Scalar.infinite, .number 0]
    c.Agrees ∧ (step op c).1 = .error (.notWritable .positive) ∧ ¬ (step op c).2.Agrees := by
  intro c op
  have hc : c.Agrees := .of_lifted rfl rfl
  have hop : (step op c).1 = .error (.notWritable .positive) := by decide +kernel
  have hempty : (step op c).2.surface.start = none := by decide +kernel
  refine ⟨hc, hop, fun ht => ?_⟩
  rcases agrees_refused_iff rfl _ hc hop with ⟨z, -, -, -, -, hiff⟩ | ⟨z, done, g, -, -, hs, -⟩ |
    ⟨z, done, g, hz, -⟩
  · exact absurd (hiff.mp ht).1 (Option.some_ne_none _).symm
  · rw [hs, behind, Sheet.extendedAll_start] at hempty
    exact absurd hempty (Option.some_ne_none _)
  · exact absurd hz (Option.some_ne_none _).symm

theorem not_agrees_after_refused_line :
    let start : Canvas (Sheet Float) Float := fresh (Sheet.default "drawing.svg") true .radians
    let c := (step (.command ⟨.move, false⟩ (Argument.ofNumbers [0, 0])) start).2
    let op : Op Float :=
      .command ⟨.line, false⟩ [.number 5, .number 5, .number Scalar.infinite, .number 0]
    c.Agrees ∧ (step op c).1 = .error (.notWritable .positive) ∧ ¬ (step op c).2.Agrees := by
  intro start c op
  have hc : c.Agrees :=
    agrees_step (by rintro ⟨⟩) (.of_lifted rfl rfl) (by decide +kernel)
  refine ⟨hc, by decide +kernel, fun h => ?_⟩
  -- the first line has been drawn, and the pen is where it was
  have hcurrent : (step op c).2.pen.current = some ⟨0, 0⟩ := by decide +kernel
  have himage := h.current ⟨0, 0⟩ hcurrent
  revert himage
  decide +kernel

end Canvas

end Linework
