import Linework.Proofs.Canvas.Relative
import Linework.Proofs.Sheet.Started

/-!
# Drawing the text of a path again

The text of a path without arcs, drawn on a canvas over a blank sheet, leads to parts with the same
text. Each element that is read does what its part has done: without a transform the numbers stay
what they are, and as the path is open wherever a part goes on from a point, nothing is drawn to
open it.
-/

set_option autoImplicit false

namespace Linework

open Outline
open Scalar (Alike)

namespace Part

variable {α : Type}

/-- Parts of one sort whose coordinates are the same numbers. -/
structure Same (q p : Part Float) : Prop where
  verb : q.verb = p.verb
  coordinates : List.Forall₂ Alike q.coordinates p.coordinates

variable {p q r : Part Float} {e : Element Float}

theorem Same.isFinite (h : Same q p) (hp : p.IsFinite) : q.IsFinite :=
  isFinite_numbers h.coordinates hp

theorem isFinite_rounded (h : p.IsFinite) : p.rounded.IsFinite := by
  rw [IsFinite, rounded, coordinates_map, List.forall_mem_map]
  exact fun x hx => Coordinate.isFinite_roundPlaces (h x hx)

theorem text_congr (hv : q.verb = p.verb) (ha : p.verb ≠ .arc)
    (h : q.coordinates.map Coordinate.text = p.coordinates.map Coordinate.text) :
    q.text = p.text := by
  cases q <;> cases p <;> first | exact absurd rfl ha | cases hv
  all_goals
    simp only [coordinates, List.map_cons, List.map_nil, List.cons.injEq, and_true] at h
    simp [text, arguments, pointText, verb, h]

theorem text_rounded (hp : p.IsFinite) (ha : p.verb ≠ .arc) : p.rounded.text = p.text := by
  refine text_congr (verb_rounded p) ha ?_
  rw [rounded, coordinates_map, List.map_map]
  exact List.map_congr_left fun x hx => Coordinate.text_roundPlaces (hp x hx)

theorem Same.text (h : Same q p) (ha : p.verb ≠ .arc) : q.text = p.text := by
  refine text_congr h.verb ha ?_
  rw [← List.forall₂_eq_eq_eq, List.forall₂_map_left_iff, List.forall₂_map_right_iff]
  exact h.coordinates.imp fun _ _ => Coordinate.text_congr

def element [Scalar α] (part : Part α) : Element α := ⟨⟨part.verb, false⟩, part.numbers⟩

theorem exists_point {xs ys : List Float} {z : Point Float}
    (h : List.Forall₂ Alike xs (z.x :: z.y :: ys)) : ∃ (w : Point Float) (rest : List Float),
      xs = w.x :: w.y :: rest ∧ Alike w.x z.x ∧ Alike w.y z.y ∧ List.Forall₂ Alike rest ys := by
  rcases h with _ | ⟨hx, _ | ⟨hy, hrest⟩⟩
  exact ⟨⟨_, _⟩, _, rfl, hx, hy, hrest⟩

/-- What the text of a part without flags reads as is again what a part is written as. -/
theorem Reads.exists_element (h : p.Reads e) (ha : p.verb ≠ .arc) :
    ∃ q : Part Float, e = q.element ∧ Same q p.rounded := by
  obtain ⟨k, xs⟩ := e
  obtain ⟨rfl, -, hn⟩ := h
  cases p with
  | move z =>
    obtain ⟨w, rest, rfl, hx, hy, hrest⟩ := exists_point hn
    cases hrest
    exact ⟨.move w, rfl, rfl, .cons hx (.cons hy .nil)⟩
  | line z =>
    obtain ⟨w, rest, rfl, hx, hy, hrest⟩ := exists_point hn
    cases hrest
    exact ⟨.line w, rfl, rfl, .cons hx (.cons hy .nil)⟩
  | cubic a b z =>
    obtain ⟨a', rest, rfl, hax, hay, hrest⟩ := exists_point hn
    obtain ⟨b', rest, rfl, hbx, hby, hrest⟩ := exists_point hrest
    obtain ⟨w, rest, rfl, hx, hy, hrest⟩ := exists_point hrest
    cases hrest
    exact ⟨.cubic a' b' w, rfl, rfl,
      .cons hax (.cons hay (.cons hbx (.cons hby (.cons hx (.cons hy .nil)))))⟩
  | quadratic a z =>
    obtain ⟨a', rest, rfl, hax, hay, hrest⟩ := exists_point hn
    obtain ⟨w, rest, rfl, hx, hy, hrest⟩ := exists_point hrest
    cases hrest
    exact ⟨.quadratic a' w, rfl, rfl, .cons hax (.cons hay (.cons hx (.cons hy .nil)))⟩
  | arc => exact absurd rfl ha
  | close =>
    cases hn
    exact ⟨.close, rfl, rfl, .nil⟩

end Part

section Untransformed

theorem Affine.apply_identity {z : Point Float} (hx : Scalar.isFinite z.x)
    (hy : Scalar.isFinite z.y) : Alike (Affine.identity.apply z).x z.x ∧
      Alike (Affine.identity.apply z).y z.y := by
  have hend := Binary64.isZero_zero_mul (y := Scalar.whole 1) (by decide +kernel)
  constructor
  · refine (Binary64.add_isZero_alike _ hend).trans ?_
    rw [Affine.identity, Binary64.one_mul hx]
    exact Binary64.add_isZero_alike _ (Binary64.isZero_zero_mul hy)
  · refine (Binary64.add_isZero_alike _ hend).trans ?_
    rw [Affine.identity, Binary64.one_mul hy, Binary64.add_comm]
    exact Binary64.add_isZero_alike _ (Binary64.isZero_zero_mul hx)

theorem Affine.alike_identity {zs : List (Point Float)}
    (h : ∀ z ∈ zs, Scalar.isFinite z.x ∧ Scalar.isFinite z.y) :
    List.Forall₂ Alike (zs.flatMap fun z => [(identity.apply z).x, (identity.apply z).y])
      (zs.flatMap fun z => [z.x, z.y]) := by
  induction zs with
  | nil => exact .nil
  | cons z rest ih =>
    obtain ⟨hz, hrest⟩ := List.forall_mem_cons.mp h
    obtain ⟨hx, hy⟩ := apply_identity hz.1 hz.2
    exact .cons hx (.cons hy (ih hrest))

end Untransformed

namespace Segment

variable {α : Type}

def points : Segment α → List (Point α)
  | line z => [z]
  | cubic c => [c.first, c.second, c.finish]
  | quadratic q => [q.control, q.finish]

theorem part_coordinates (g : Segment α) :
    g.part.coordinates = g.points.flatMap fun z => [z.x, z.y] := by
  cases g <;> rfl

theorem image_coordinates [Scalar α] (g : Segment α) (m : Affine α) :
    (g.image m).coordinates = g.points.flatMap fun z => [(m.apply z).x, (m.apply z).y] := by
  cases g <;> rfl

theorem image_verb [Scalar α] (g : Segment α) (m : Affine α) :
    (g.image m).verb = g.part.verb := by
  cases g <;> rfl

end Segment

namespace Canvas

section Steps

variable {α : Type} [Scalar α] [HasAxes α] {c : Canvas (Sheet α) α}

omit [Scalar α] [HasAxes α] in
theorem accepts_groupSize (v : Verb) : accepts ⟨v, false⟩ v.groupSize = true := by
  cases v <;> decide

theorem step_element {part : Part α} {t : Canvas (Sheet α) α}
    (h : (carryOut ⟨part.verb, false⟩ (Argument.ofNumbers part.numbers)).run c = (.ok (), t)) :
    step (Op.ofElement part.element) c = (.ok [], t) := by
  have hcount : accepts ⟨part.verb, false⟩ (Argument.ofNumbers part.numbers).length = true := by
    rw [Argument.length_ofNumbers, Part.length_numbers, accepts_groupSize]
  change (quietly (command ⟨part.verb, false⟩ (Argument.ofNumbers part.numbers))).run c = _
  rw [run_quietly, command, if_pos hcount, h]

theorem step_move (z : Point α) (h : (Part.move (c.surface.map z)).nonFinite? = none) :
    step (Op.ofElement (Part.move z).element) c = (.ok [], c.begun z) := by
  apply step_element
  have hmove : (moveTo z).run c = (.ok (), c.begun z) := by
    rw [moveTo, Act.run_bind_ok (run_draw_moveTo_of_finite h)]
    rfl
  change (moveTo z >>= fun _ => (pure () : Act (Canvas (Sheet α) α) Unit)).run c = _
  rw [Act.run_bind_ok hmove]
  rfl

theorem run_drawSegments_singleton (g : Segment α) (hs : c.surface.current ≠ none)
    (h : (g.image c.surface.transform).nonFinite? = none) :
    (drawSegments [g]).run c = (.ok (), c.drawn [g]) := by
  rcases run_drawSegments [g] fun _ => hs with hr | ⟨done, g', rest, n, hg, hn, -⟩
  · exact hr
  · have hmem : g' ∈ [g] := by simp [hg]
    rw [List.mem_singleton.mp hmem, h] at hn
    cases hn

theorem step_segment (g : Segment α) (ho : c.pen.isOpen) (hs : c.surface.current ≠ none)
    (h : (g.image c.surface.transform).nonFinite? = none) :
    step (Op.ofElement g.part.element) c = (.ok [], c.drawn [g]) := by
  apply step_element
  obtain ⟨z, hz⟩ := Pen.isOpen_iff.mp ho
  rw [← run_drawSegments_singleton g hs h]
  cases g with
  | line w =>
    change (line false (Argument.ofNumbers [w.x, w.y])).run c = _
    rw [run_line_false hz (Argument.reals_ofNumbers _), drawLines_eq_segments]
    rfl
  | cubic k =>
    change (cubic false (Argument.ofNumbers
      [k.first.x, k.first.y, k.second.x, k.second.y, k.finish.x, k.finish.y])).run c = _
    rw [run_cubic_false hz (Argument.reals_ofNumbers _), drawCubics_eq_segments]
    rfl
  | quadratic q =>
    change (quadratic false (Argument.ofNumbers
      [q.control.x, q.control.y, q.finish.x, q.finish.y])).run c = _
    rw [run_quadratic_false hz (Argument.reals_ofNumbers _), drawQuadratics_eq_segments]
    rfl

theorem step_close : step (Op.ofElement (Part.close : Part α).element) c =
    (.ok [], { c with surface := c.surface.closePath, pen := c.pen.close }) := rfl

end Steps

section Redrawing

/-- A canvas without a transform on which parts have been drawn again, the latest first. -/
structure Redrawn (c : Canvas (Sheet Float) Float) (parts : List (Part Float)) : Prop where
  transform : c.surface.transform = Affine.identity
  texts : c.surface.backwards.map Part.text = parts.map Part.text
  current : Part.Started parts → c.pen.isOpen ∧ c.surface.current ≠ none
  start : Part.Started parts → c.pen.start ≠ none ∧ c.surface.start ≠ none

theorem redrawn_fresh (width height fileName : String) (autoOpen : Bool) (unit : AngleUnit) :
    Redrawn (fresh (Sheet.blank width height fileName) autoOpen unit) [] := by
  have hnone : ¬ Part.Started ([] : List (Part Float)) := by simp [Part.Started]
  exact ⟨rfl, rfl, fun h => absurd h hnone, fun h => absurd h hnone⟩

variable {c : Canvas (Sheet Float) Float} {parts : List (Part Float)} {p q : Part Float}

theorem text_of_image {image : Part Float} (hi : Part.Same image q) (hq : Part.Same q p.rounded)
    (hp : p.IsFinite) (ha : p.verb ≠ .arc) : image.text = p.text := by
  have hr : p.rounded.verb ≠ .arc := by rwa [Part.verb_rounded]
  rw [hi.text (hq.verb ▸ hr), hq.text hr, Part.text_rounded hp ha]

theorem same_move (hc : Redrawn c parts) {z : Point Float} (hz : (Part.move z).IsFinite) :
    Part.Same (.move (c.surface.map z)) (.move z) := by
  have hfinite : ∀ w ∈ [z], Scalar.isFinite w.x ∧ Scalar.isFinite w.y := by
    simpa [Part.IsFinite, Part.coordinates] using hz
  rw [Sheet.map, hc.transform]
  exact ⟨rfl, Affine.alike_identity hfinite⟩

theorem same_image (hc : Redrawn c parts) {g : Segment Float} (hg : g.part.IsFinite) :
    Part.Same (g.image c.surface.transform) g.part := by
  refine ⟨g.image_verb _, ?_⟩
  rw [Part.IsFinite, g.part_coordinates, List.forall_mem_flatMap] at hg
  rw [hc.transform, g.image_coordinates, g.part_coordinates]
  exact Affine.alike_identity fun z hz => by simpa using hg z hz

theorem redrawn_begun (hc : Redrawn c parts) {z : Point Float}
    (ht : (Part.move (c.surface.map z)).text = p.text) :
    Redrawn (c.begun z) (p :: parts) := by
  refine ⟨hc.transform, ?_, fun _ => ⟨rfl, Option.some_ne_none _⟩,
    fun _ => ⟨Option.some_ne_none _, Option.some_ne_none _⟩⟩
  exact congrArg₂ List.cons ht hc.texts

theorem redrawn_drawn (hc : Redrawn c parts) (hs : Part.Started parts) {g : Segment Float}
    (ht : (g.image c.surface.transform).text = p.text) : Redrawn (c.drawn [g]) (p :: parts) := by
  refine ⟨hc.transform, congrArg₂ List.cons ht hc.texts, fun _ => ⟨?_, Option.some_ne_none _⟩,
    fun _ => ?_⟩
  · simp [drawn, Pen.isOpen, Pen.followAll]
  · simpa [drawn] using hc.start hs

theorem redrawn_closed (hc : Redrawn c parts) (ht : (Part.close : Part Float).text = p.text)
    (hp : p.verb = .close) :
    Redrawn { c with surface := c.surface.closePath, pen := c.pen.close } (p :: parts) := by
  have hstart (h : Part.Started (p :: parts)) : Part.Started parts := by
    obtain ⟨r, hr, hv⟩ := h
    rcases List.mem_cons.mp hr with rfl | hr
    · rw [hp] at hv
      cases hv
    · exact ⟨r, hr, hv⟩
  refine ⟨hc.transform, congrArg₂ List.cons ht hc.texts, fun h => ?_, fun h => ?_⟩
  all_goals
    obtain ⟨hpen, hsheet⟩ := hc.start (hstart h)
    obtain ⟨z, hz⟩ := Option.ne_none_iff_exists'.mp hpen
    rw [Pen.close_of_start hz]
  · exact ⟨rfl, hsheet⟩
  · exact ⟨hpen, hsheet⟩

theorem redrawn_segment (hc : Redrawn c parts) {g : Segment Float} (hq : Part.Same g.part p.rounded)
    (hp : p.IsFinite) (ha : p.verb ≠ .arc) (hs : Part.Started parts) :
    ∃ t, step (Op.ofElement g.part.element) c = (.ok [], t) ∧ Redrawn t (p :: parts) := by
  have hfinite : g.part.IsFinite := hq.isFinite (Part.isFinite_rounded hp)
  have hi := same_image hc hfinite
  obtain ⟨ho, hcurrent⟩ := hc.current hs
  exact ⟨_, step_segment g ho hcurrent (Part.nonFinite?_eq_none_iff.mpr (hi.isFinite hfinite)),
    redrawn_drawn hc hs (text_of_image hi hq hp ha)⟩

theorem redrawn_step (hc : Redrawn c parts) {e : Element Float} (he : p.Reads e)
    (hp : p.IsFinite) (ha : p.verb ≠ .arc)
    (hs : p.verb = .move ∨ p.verb = .close ∨ Part.Started parts) :
    ∃ t, step (Op.ofElement e) c = (.ok [], t) ∧ Redrawn t (p :: parts) := by
  obtain ⟨q, rfl, hq⟩ := he.exists_element ha
  have hfinite : q.IsFinite := hq.isFinite (Part.isFinite_rounded hp)
  have hverb : q.verb = p.verb := by rw [hq.verb, Part.verb_rounded]
  rw [← hverb] at hs
  cases q with
  | move z =>
    have hi := same_move hc hfinite
    exact ⟨_, step_move z (Part.nonFinite?_eq_none_iff.mpr (hi.isFinite hfinite)),
      redrawn_begun hc (text_of_image hi hq hp ha)⟩
  | line z => exact redrawn_segment (g := .line z) hc hq hp ha (by simpa [Part.verb] using hs)
  | cubic a b z =>
    exact redrawn_segment (g := .cubic ⟨a, b, z⟩) hc hq hp ha (by simpa [Part.verb] using hs)
  | quadratic a z =>
    exact redrawn_segment (g := .quadratic ⟨a, z⟩) hc hq hp ha (by simpa [Part.verb] using hs)
  | arc => exact absurd hverb.symm ha
  | close =>
    exact ⟨_, step_close, redrawn_closed hc (text_of_image ⟨rfl, .nil⟩ hq hp ha) hverb.symm⟩

theorem redrawn_follow {rest : List (Part Float)} {es : List (Element Float)}
    (hc : Redrawn c parts) (he : List.Forall₂ Part.Reads rest es)
    (hp : ∀ p ∈ rest, p.IsFinite) (ha : ∀ p ∈ rest, p.verb ≠ .arc)
    (hs : Part.FollowStarts (rest.reverse ++ parts)) :
    ∃ t, follow (es.map Op.ofElement) c = (.ok [], t) ∧ Redrawn t (rest.reverse ++ parts) := by
  induction he generalizing c parts with
  | nil => exact ⟨c, rfl, hc⟩
  | @cons p e rest es he _ ih =>
    rw [List.forall_mem_cons] at hp ha
    rw [List.reverse_cons, List.append_assoc, List.singleton_append] at hs ⊢
    obtain ⟨t, hstep, ht⟩ := redrawn_step hc he hp.1 ha.1 hs.of_append.1
    obtain ⟨u, hfollow, hu⟩ := ih ht hp.2 ha.2 hs
    exact ⟨u, by rw [List.map_cons, follow, hstep]; simp only [hfollow, List.append_nil], hu⟩

end Redrawing

end Canvas

namespace Sheet

def pathText (s : Sheet Float) : String := String.ofList (Part.pathText s.parts)

/-- After calls of which none fails, the text of a path that is not empty reads as one element for
each part, with the letter of the part and as many numbers as it takes, each coordinate rounded to
ten places and each flag zero or one. Drawn on a canvas over a blank sheet, the text of a path
without arcs leads to a path with the same text. -/
theorem pathText_reads_back (width height fileName : String) {calls : List (Call Float)}
    {w : List Warning} {s : Sheet Float}
    (h : Surface.performAll calls (blank width height fileName) = (w, none, s))
    (hne : s.pathText ≠ "") :
    ∃ es, parse s.pathText = .ok es ∧ List.Forall₂ Part.Reads s.parts es ∧
      ((∀ part ∈ s.parts, part.verb ≠ .arc) → ∀ width height fileName autoOpen unit,
        ∃ t, Canvas.step (.path s.pathText)
            (Canvas.fresh (blank width height fileName) autoOpen unit) = (.ok [], t) ∧
          t.surface.pathText = s.pathText) := by
  have hsound := sound_performAll (sound_blank width height fileName) h
  have hfinite : ∀ part ∈ s.parts, part.IsFinite := by simpa [parts] using hsound.finite
  have hparts : s.parts ≠ [] := by
    rintro hnil
    exact hne (by rw [pathText, hnil]; rfl)
  obtain ⟨es, hparse, hes⟩ := Part.parse_pathText hparts hfinite
  refine ⟨es, hparse, hes, fun ha width' height' fileName' autoOpen unit => ?_⟩
  have hordered : Part.FollowStarts (s.parts.reverse ++ []) := by
    simpa [parts] using hsound.ordered
  obtain ⟨t, hfollow, ht⟩ := Canvas.redrawn_follow
    (Canvas.redrawn_fresh width' height' fileName' autoOpen unit) hes hfinite ha hordered
  refine ⟨t, (Canvas.step_path_of_ok hparse _).trans hfollow, ?_⟩
  rw [pathText, pathText, Part.pathText, Part.pathText, parts, List.map_reverse, ht.texts]
  simp [List.map_reverse]

theorem pathText_reads_back_mirrored :
    let calls : List (Call Float) :=
      [.scale ⟨.number (Scalar.place 3), .number (-Scalar.place 3)⟩, .closePath,
        .lineTo ⟨0, Scalar.ofDecimal ⟨false, 7, 30⟩⟩, .save,
        .cubicTo ⟨1, 0⟩ ⟨Scalar.place 9, 2⟩ ⟨3, 4⟩, .closePath, .quadraticTo ⟨1, 0⟩ ⟨2, 5⟩]
    let r := Surface.performAll calls (default "drawing.svg")
    r.2.1 = none ∧ r.2.2.pathText ≠ "" ∧ (∀ part ∈ r.2.2.parts, part.verb ≠ .arc) ∧
      ∃ es, parse r.2.2.pathText = .ok es ∧ List.Forall₂ Part.Reads r.2.2.parts es ∧
        ∃ t, Canvas.step (.path r.2.2.pathText)
            (Canvas.fresh (default "drawing.svg") true .radians) = (.ok [], t) ∧
          t.surface.pathText = r.2.2.pathText := by
  intro calls r
  have hnone : r.2.1 = none := by decide +kernel
  have hne : r.2.2.pathText ≠ "" := by decide +kernel
  have ha : ∀ part ∈ r.2.2.parts, part.verb ≠ .arc := by decide +kernel
  have hsplit (p : List Warning × Option Fault × Sheet Float) (hp : p.2.1 = none) :
      p = (p.1, none, p.2.2) := by rw [← hp]
  have hr := hsplit r hnone
  obtain ⟨es, hparse, hes, hdrawn⟩ := pathText_reads_back _ _ _ hr hne
  exact ⟨hnone, hne, ha, es, hparse, hes, hdrawn ha _ _ _ true .radians⟩

end Sheet

end Linework
