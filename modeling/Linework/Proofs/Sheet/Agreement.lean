import Linework.Proofs.Canvas.Step
import Linework.Proofs.Sheet.Calls
import Linework.Proofs.Sheet.Segments

/-!
# The pen and the sheet agree

The pen of a canvas keeps its points as they were given, and the sheet under it keeps their images
under the transform that was in force when they were drawn. The two agree if the sheet's points
are the images of the pen's under the transform that is in force now. An operation that draws no
arcs and restores nothing keeps this unless it fails; so it holds all through a run of them.
-/

set_option autoImplicit false

namespace Linework

open Outline (Command Element)

/-- Whether an operation neither draws arcs nor goes back to what was saved. -/
def Op.IsPlain {α : Type} [Scalar α] : Op α → Prop
  | .command k _ => k.verb ≠ .arc
  | .path text =>
    ∀ es : List (Element α), Outline.parse text = .ok es → ∀ e ∈ es, e.command.verb ≠ .arc
  | .oval _ | .roundedCorner .. | .restore | .revert => False
  | _ => True

namespace Canvas

variable {α : Type}

structure SamePoints (c t : Canvas (Sheet α) α) : Prop where
  pen_current : t.pen.current = c.pen.current
  pen_start : t.pen.start = c.pen.start
  sheet_current : t.surface.current = c.surface.current
  sheet_start : t.surface.start = c.surface.start

variable [Scalar α]

/-- The points of the sheet are the images of those of the pen, as far as the pen has any. -/
structure Agrees (c : Canvas (Sheet α) α) : Prop where
  current : ∀ z, c.pen.current = some z → c.surface.current = some (c.surface.map z)
  start : ∀ z, c.pen.start = some z → c.surface.start = some (c.surface.map z)

namespace Agrees

variable {c t : Canvas (Sheet α) α}

theorem of_lifted (hc : c.pen.current = none) (hs : c.pen.start = none) : c.Agrees :=
  ⟨fun z hz => by simp [hc] at hz, fun z hz => by simp [hs] at hz⟩

/-- With all points in place, the pen goes on to agree if its points have the images that they
had. -/
theorem iff_of_samePoints (h : c.Agrees) (hp : SamePoints c t) :
    t.Agrees ↔ ∀ z, c.pen.current = some z ∨ c.pen.start = some z →
      t.surface.map z = c.surface.map z := by
  constructor
  · intro ht z hz
    rcases hz with hz | hz
    · have himage := ht.current z (hp.pen_current.trans hz)
      rw [hp.sheet_current, h.current z hz] at himage
      exact (Option.some.inj himage).symm
    · have himage := ht.start z (hp.pen_start.trans hz)
      rw [hp.sheet_start, h.start z hz] at himage
      exact (Option.some.inj himage).symm
  · intro hmap
    constructor
    · intro z hz
      rw [hp.pen_current] at hz
      rw [hp.sheet_current, h.current z hz, hmap z (.inl hz)]
    · intro z hz
      rw [hp.pen_start] at hz
      rw [hp.sheet_start, h.start z hz, hmap z (.inr hz)]

theorem of_samePoints (h : c.Agrees) (hp : SamePoints c t)
    (hm : t.surface.transform = c.surface.transform) : t.Agrees := by
  refine (h.iff_of_samePoints hp).mpr fun z _ => ?_
  rw [Sheet.map, hm, Sheet.map]

theorem surface_current (h : c.Agrees) (ho : c.pen.isOpen) : c.surface.current ≠ none := by
  obtain ⟨z, hz⟩ := Pen.isOpen_iff.mp ho
  rw [h.current z hz]
  exact Option.some_ne_none _

theorem begun (c : Canvas (Sheet α) α) (z : Point α) : (c.begun z).Agrees := by
  constructor
  · rintro w ⟨⟩
    rfl
  · rintro w ⟨⟩
    rfl

theorem drawn (h : c.Agrees) (gs : List (Segment α)) : (c.drawn gs).Agrees := by
  constructor
  · intro z hz
    rcases List.eq_nil_or_concat' gs with rfl | ⟨init, g, rfl⟩
    · exact h.current z hz
    · have hg : z = g.finish := by simpa [Canvas.drawn, eq_comm] using hz
      rw [Canvas.drawn, Sheet.extendedAll_concat_current, Sheet.extendedAll_map, hg]
  · intro z hz
    have hp : c.pen.start = some z := by simpa [Canvas.drawn] using hz
    rw [Canvas.drawn, Sheet.extendedAll_start, Sheet.extendedAll_map, h.start z hp]

end Agrees

section Drawing

variable [HasAxes α]

theorem eq_of_draw_moveTo {z : Point α} {c t : Canvas (Sheet α) α} {u : Unit}
    (h : (draw (.moveTo z)).run c = (.ok u, t)) : t = { c with surface := c.surface.begun z } := by
  cases hn : (Part.move (c.surface.map z)).nonFinite? with
  | some n =>
    rw [run_draw_moveTo_of_nonFinite hn] at h
    cases h
  | none =>
    rw [run_draw_moveTo_of_finite hn] at h
    cases h
    rfl

theorem ensures_moveTo (z : Point α) : Act.Ensures (Agrees (α := α)) Agrees (moveTo z) := by
  intro c u t _ ht
  rw [moveTo] at ht
  rcases hd : (draw (.moveTo z)).run c with ⟨e | v, d⟩
  · rw [Act.run_bind_error hd] at ht
    cases ht
  · rw [Act.run_bind_ok hd, run_movePen, eq_of_draw_moveTo hd] at ht
    cases ht
    exact .begun c z

theorem ensures_drawSegments (gs : List (Segment α)) :
    Act.Ensures (fun c : Canvas (Sheet α) α => c.Agrees ∧ (gs ≠ [] → c.pen.isOpen)) Agrees
      (drawSegments gs) := by
  intro c u t ⟨hc, ho⟩ ht
  rcases run_drawSegments gs fun hne => hc.surface_current (ho hne) with
    hrun | ⟨done, g, rest, n, -, -, hrun⟩
  · rw [hrun] at ht
    cases ht
    exact hc.drawn gs
  · rw [hrun] at ht
    cases ht

theorem ensures_of_course {m : Act (Canvas (Sheet α) α) Unit}
    (h : ∀ c, Course c (m.run c)) : Act.Ensures Agrees Agrees m := by
  intro c u t hc ht
  cases h c with
  | row gs ho hr => exact ensures_drawSegments gs c u t ⟨hc, ho⟩ (hr ▸ ht)
  | opened z gs ho hr =>
    rw [ht] at hr
    rcases hd : (draw (.moveTo z)).run (c.withPen fun p => p.openAt z) with ⟨e | v, d⟩
    · rw [Act.run_bind_error hd] at hr
      cases hr
    · rw [Act.run_bind_ok hd, eq_of_draw_moveTo hd] at hr
      exact ensures_drawSegments gs (c.begun z) u t ⟨.begun c z, fun _ => rfl⟩ hr.symm
  | brokenOff gs ho e he hr =>
    have hfail : Act.Ensures Agrees Agrees
        (drawCalls (gs.map Segment.call) >>= fun _ => (throw e : Act _ Unit)) :=
      Act.ensures_bind (Act.ensures_true _) fun _ => Act.ensures_throw e
    exact hfail c u t hc (hr ▸ ht)

theorem ensures_line (relative : Bool) (as : List (Argument α)) :
    Act.Ensures (Agrees (α := α)) Agrees (line relative as) :=
  ensures_of_course fun _ => course_line relative as

theorem ensures_move (relative : Bool) (as : List (Argument α)) :
    Act.Ensures (Agrees (α := α)) Agrees (move relative as) := by
  rw [move.eq_def]
  split
  · next x y rest =>
    refine Act.ensures_bind (Act.ensures_ofExcept _) fun z => ?_
    refine Act.ensures_bind Act.ensures_get fun c => ?_
    refine Act.ensures_bind (ensures_moveTo _) fun _ => ?_
    split
    · exact Act.ensures_pure _
    · exact ensures_line relative rest
  · exact Act.ensures_pure _

theorem ensures_close : Act.Ensures (Agrees (α := α)) Agrees close := by
  intro c u t hc ht
  have hrun : (close : Act (Canvas (Sheet α) α) Unit).run c =
      (.ok (), { c with surface := c.surface.closePath, pen := c.pen.close }) := rfl
  rw [hrun] at ht
  cases ht
  cases hs : c.pen.start with
  | none =>
    rw [Pen.close_of_none hs]
    exact .of_lifted rfl rfl
  | some s =>
    rw [Pen.close_of_start hs]
    constructor
    · intro z hz
      cases hz
      exact hc.start s hs
    · exact hc.start

theorem ensures_carryOut {k : Command} (hk : k.verb ≠ .arc) (as : List (Argument α)) :
    Act.Ensures (Agrees (α := α)) Agrees (carryOut k as) := by
  by_cases hd : k.verb.drawsSegments
  · exact ensures_of_course fun _ => course_carryOut hd as
  rw [carryOut]
  cases hv : k.verb with
  | move => exact ensures_move _ _
  | close => exact ensures_close
  | arc => exact absurd hv hk
  | line | horizontal | vertical | cubic | smoothCubic | quadratic | smoothQuadratic =>
    rw [hv] at hd
    exact absurd rfl hd

theorem ensures_command {k : Command} (hk : k.verb ≠ .arc) (as : List (Argument α)) :
    Act.Ensures (Agrees (α := α)) Agrees (command k as) := by
  rw [command]
  split
  · exact ensures_carryOut hk as
  · exact Act.ensures_throw _

theorem ensures_elements {es : List (Element α)} (h : ∀ e ∈ es, e.command.verb ≠ .arc) :
    Act.Ensures (Agrees (α := α)) Agrees (elements es) := by
  induction es with
  | nil => exact Act.ensures_pure _
  | cons e rest ih =>
    exact Act.ensures_bind (ensures_command (h e List.mem_cons_self) _) fun _ =>
      ih fun e' he => h e' (List.mem_cons_of_mem e he)

theorem ensures_path {text : String}
    (h : ∀ es : List (Element α), Outline.parse text = .ok es → ∀ e ∈ es, e.command.verb ≠ .arc) :
    Act.Ensures (Agrees (α := α)) Agrees (path text) := by
  cases hp : (Outline.parse text : Except Fault (List (Element α))) with
  | error e =>
    rw [path, hp, Act.ofExcept_error, Act.throw_bind]
    exact Act.ensures_throw e
  | ok es =>
    rw [path, hp, Act.ofExcept_ok, pure_bind]
    exact ensures_elements (h es hp)

end Drawing

section Turning

variable [HasAxes α]

theorem ensures_lifting (k : Call α) : Act.Ensures (Agrees (α := α)) Agrees (lifting k) :=
  Act.ensures_bind (Act.ensures_true _) fun _ =>
    Act.ensures_modify fun _ _ => .of_lifted rfl rfl

theorem ensures_rotate (angle : Argument α) :
    Act.Ensures (Agrees (α := α)) Agrees (rotate angle) :=
  Act.ensures_bind Act.ensures_get fun _ =>
    Act.ensures_bind (Act.ensures_ofExcept _) fun turn => ensures_lifting (.rotate turn)

theorem ensures_save : Act.Ensures (Agrees (α := α)) Agrees save := by
  intro c u t hc ht
  have hrun : (save : Act (Canvas (Sheet α) α) Unit).run c =
      (.ok (), { c with surface := c.surface.save, saved := c.snapshot :: c.saved }) := rfl
  rw [hrun] at ht
  cases ht
  exact hc.of_samePoints ⟨rfl, rfl, rfl, rfl⟩ rfl

omit [HasAxes α] in
theorem ensures_setUnit (unit : Value) :
    Act.Ensures (Agrees (α := α)) Agrees (setUnit unit) :=
  Act.ensures_bind (Act.ensures_ofExcept _) fun _ =>
    Act.ensures_modify fun _ hc => hc.of_samePoints ⟨rfl, rfl, rfl, rfl⟩ rfl

omit [HasAxes α] in
theorem ensures_setStyle (changes : Changes) :
    Act.Ensures (Agrees (α := α)) Agrees (setStyle changes) :=
  Act.ensures_bind Act.ensures_get fun _ =>
    Act.ensures_bind (Act.ensures_ofExcept _) fun _ =>
      Act.ensures_modify fun _ hc => hc.of_samePoints ⟨rfl, rfl, rfl, rfl⟩ rfl

theorem ensures_perform_paint {k : Call α} (ink : Ink)
    (hk : (Surface.perform k : Act (Sheet α) _) = Sheet.paint ink) :
    Act.Ensures (Agrees (α := α)) Agrees (perform k) := by
  intro c w t hc ht
  have hcurrent := (Sheet.unpainted_paint ink).part Sheet.current c.surface
  have hstart := (Sheet.unpainted_paint ink).part Sheet.start c.surface
  have htransform := (Sheet.unpainted_paint ink).part Sheet.transform c.surface
  rw [← hk] at hcurrent hstart htransform
  rw [perform, onSurface, Act.run_within] at ht
  obtain ⟨-, rfl⟩ := Prod.mk.inj ht
  exact hc.of_samePoints ⟨rfl, rfl, hcurrent, hstart⟩ htransform

theorem ensures_fill (changes : Changes) : Act.Ensures (Agrees (α := α)) Agrees (fill changes) :=
  Act.ensures_bind Act.ensures_get fun _ =>
    Act.ensures_bind (Act.ensures_ofExcept _) fun s =>
      ensures_perform_paint (.fill s) rfl

theorem ensures_stroke (changes : Changes) :
    Act.Ensures (Agrees (α := α)) Agrees (stroke changes) :=
  Act.ensures_bind Act.ensures_get fun _ =>
    Act.ensures_bind (Act.ensures_ofExcept _) fun s =>
      ensures_perform_paint (.stroke s) rfl

theorem ensures_paint (changes : Changes) :
    Act.Ensures (Agrees (α := α)) Agrees (paint changes) := by
  refine Act.ensures_bind Act.ensures_get fun _ => ?_
  refine Act.ensures_bind (Act.ensures_ofExcept _) fun s => ?_
  refine Act.ensures_bind (ensures_perform_paint (.fill s) rfl) fun _ => ?_
  refine Act.ensures_bind (ensures_perform_paint (.stroke s) rfl) fun _ => ?_
  exact Act.ensures_pure _

theorem ensures_reset : Act.Ensures (Agrees (α := α)) Agrees reset :=
  Act.ensures_bind (Act.ensures_true _) fun _ =>
    Act.ensures_modify fun _ _ => .of_lifted rfl rfl

theorem ensures_act {op : Op α} (h : op.IsPlain) :
    Act.Ensures (Agrees (α := α)) Agrees (act op) := by
  cases op with
  | command k as => exact ensures_quietly (ensures_command h as)
  | path text => exact ensures_quietly (ensures_path h)
  | oval _ | roundedCorner _ _ _ | restore | revert => exact absurd h id
  | beginPath | translate _ | scale _ | transform _ | setTransform _ =>
    exact ensures_quietly (ensures_lifting _)
  | rotate angle => exact ensures_quietly (ensures_rotate angle)
  | save => exact ensures_quietly ensures_save
  | setUnit unit => exact ensures_quietly (ensures_setUnit unit)
  | set changes => exact ensures_quietly (ensures_setStyle changes)
  | fill changes => exact ensures_fill changes
  | stroke changes => exact ensures_stroke changes
  | paint changes => exact ensures_paint changes
  | reset => exact ensures_quietly ensures_reset

theorem agrees_step {op : Op α} (h : op.IsPlain) {c : Canvas (Sheet α) α} (hc : c.Agrees)
    (hok : (step op c).1.isOk) : (step op c).2.Agrees := by
  rcases hs : step op c with ⟨e | w, t⟩
  · rw [hs] at hok
    cases hok
  · exact ensures_act h c w t hc hs

end Turning

section Runs

variable [HasAxes α]

theorem agrees_of_prefix {ops before : List (Op α)} {c : Canvas (Sheet α) α} (hc : c.Agrees)
    (hplain : ∀ op ∈ ops, op.IsPlain) (hok : ∀ o ∈ (run ops c).1, o.isOk)
    (hb : before <+: ops) : (run before c).2.Agrees := by
  induction ops generalizing c before with
  | nil =>
    rw [List.prefix_nil.mp hb]
    exact hc
  | cons op rest ih =>
    cases before with
    | nil => exact hc
    | cons op' before =>
      obtain ⟨rfl, hrest⟩ := List.cons_prefix_cons.mp hb
      have hstep := agrees_step (hplain _ List.mem_cons_self) hc (hok _ List.mem_cons_self)
      rw [run_cons]
      exact ih hstep (fun o ho => hplain o (List.mem_cons_of_mem _ ho))
        (fun o ho => hok o (List.mem_cons_of_mem _ ho)) hrest

/-- After every operation of a run without arcs and restoring in which none fails, the points of
the sheet are the images of the pen's. -/
theorem agrees_run (sheet : Sheet α) (autoOpen : Bool) (unit : AngleUnit)
    {ops before : List (Op α)} (hplain : ∀ op ∈ ops, op.IsPlain)
    (hok : ∀ o ∈ (run ops (fresh sheet autoOpen unit)).1, o.isOk) (hb : before <+: ops) :
    (run before (fresh sheet autoOpen unit)).2.Agrees :=
  agrees_of_prefix (.of_lifted rfl rfl) hplain hok hb

theorem agrees_run_scaled :
    let ops : List (Op Float) :=
      [.translate ⟨.number 10, .number 20⟩, .command ⟨.move, false⟩ (Argument.ofNumbers [1, 2]),
        .command ⟨.line, true⟩ (Argument.ofNumbers [3, 4, 5, 6]),
        .scale ⟨.number 2, .number 3⟩, .save,
        .command ⟨.cubic, false⟩ (Argument.ofNumbers [1, 1, 2, 2, 3, 1]),
        .command ⟨.smoothCubic, true⟩ (Argument.ofNumbers [1, 1, 2, 2]),
        .command ⟨.close, false⟩ []]
    let c : Canvas (Sheet Float) Float := fresh (Sheet.default "drawing.svg") true .radians
    (∀ op ∈ ops, op.IsPlain) ∧ (∀ o ∈ (run ops c).1, o.isOk) ∧ (run ops c).2.Agrees := by
  intro ops c
  have hplain : ∀ op ∈ ops, op.IsPlain := by simp [ops, Op.IsPlain]
  have hok : ∀ o ∈ (run ops c).1, o.isOk := by decide +kernel
  exact ⟨hplain, hok, agrees_run _ true .radians hplain hok (List.prefix_refl ops)⟩

end Runs

end Canvas

end Linework
