import Linework.Proofs.Canvas.Styles
import Linework.Proofs.Style.Sound

/-!
# The styles that a surface is handed

To know what a surface is handed, it is listened to: the surface does what it did before, and every
call that is made of it is noted, be it answered or refused. The styles that come with fills and
strokes, like those that the canvas holds, can all be had from the default style by replacing
attributes, with the changes that the operations gave. So they are as sound as such styles are, on
every surface.
-/

set_option autoImplicit false

namespace Linework

def Argument.style? {α : Type} : Argument α → Option Style
  | style s => some s
  | _ => none

def Call.styles {α : Type} (k : Call α) : List Style :=
  if k.primitive.paints then k.arguments.filterMap Argument.style? else []

@[simp] theorem Call.styles_fill {α : Type} (s : Style) : (fill s : Call α).styles = [s] := rfl

@[simp] theorem Call.styles_stroke {α : Type} (s : Style) : (stroke s : Call α).styles = [s] := rfl

theorem Call.styles_of_not_paints {α : Type} {k : Call α} (h : k.primitive.paints = false) :
    k.styles = [] := by
  rw [styles, h]
  rfl

structure Heard (σ α : Type) where
  surface : σ
  /-- All calls that were made, also those before a reset. -/
  calls : List (Call α)

namespace Heard

variable {σ α : Type}

def fresh (s : σ) : Heard σ α := ⟨s, []⟩

def handed (h : Heard σ α) : List Style := h.calls.flatMap Call.styles

variable [Surface σ α]

instance : Surface (Heard σ α) α where
  perform k := (Surface.perform k).within Heard.surface fun h s => ⟨s, h.calls ++ [k]⟩
  clear := Surface.clear.within Heard.surface fun h s => { h with surface := s }

theorem carries : Surface.Carries (Heard.surface : Heard σ α → σ) where
  perform_eq _ _ := rfl
  clear_eq _ := rfl

theorem run_heard [Scalar α] (ops : List (Op α)) (s : σ) (autoOpen : Bool) (unit : AngleUnit) :
    let heard := Canvas.run ops (Canvas.fresh (fresh s : Heard σ α) autoOpen unit)
    Canvas.run ops (Canvas.fresh s autoOpen unit) =
      (heard.1, heard.2.on heard.2.surface.surface) :=
  carries.run_eq ops (Canvas.fresh (fresh s : Heard σ α) autoOpen unit)

theorem handed_perform (k : Call α) (h : Heard σ α) :
    ((Surface.perform k : Act (Heard σ α) (List Warning)).run h).2.handed =
      h.handed ++ k.styles := by
  have hcalls : ((Surface.perform k : Act (Heard σ α) (List Warning)).run h).2.calls =
      h.calls ++ [k] := rfl
  rw [handed, hcalls, List.flatMap_append, List.flatMap_singleton, handed]

end Heard

def Op.changes? {α : Type} : Op α → Option Changes
  | .set changes | .fill changes | .stroke changes | .paint changes => some changes
  | _ => none

/-- No changes at all, or those of one of the operations. -/
def Op.Given {α : Type} (ops : List (Op α)) (changes : Changes) : Prop :=
  changes = [] ∨ ∃ op ∈ ops, op.changes? = some changes

namespace Canvas

variable {σ α : Type} [Surface σ α]

theorem run_performs_cons (k : Call α) (rest : List (Call α)) (c : Canvas σ α) :
    ((performs (k :: rest)).run c).2 = ((perform k).run c).2 ∨
      ((performs (k :: rest)).run c).2 = ((performs rest).run ((perform k).run c).2).2 := by
  rcases hk : (perform k).run c with ⟨e | w, d⟩
  · rw [performs, Act.run_bind_error hk]
    exact .inl rfl
  · right
    rw [performs, Act.run_bind_ok hk]
    rcases hr : (performs rest).run d with ⟨e | v, u⟩
    · rw [Act.run_bind_error hr]
    · rw [Act.run_bind_ok hr]
      rfl

theorem handed_performs {calls : List (Call α)} {c : Canvas (Heard σ α) α} {t : Style}
    (ht : t ∈ ((performs calls).run c).2.surface.handed) :
    t ∈ c.surface.handed ∨ t ∈ calls.flatMap Call.styles := by
  induction calls generalizing c with
  | nil => exact .inl ht
  | cons k rest ih =>
    have hk : ((perform k).run c).2.surface.handed = c.surface.handed ++ k.styles :=
      Heard.handed_perform k c.surface
    have hfirst : t ∈ ((perform k).run c).2.surface.handed →
        t ∈ c.surface.handed ∨ t ∈ (k :: rest).flatMap Call.styles := by
      rw [hk, List.mem_append, List.flatMap_cons, List.mem_append]
      exact Or.imp_right .inl
    rcases run_performs_cons k rest c with hstop | hgo
    · rw [hstop] at ht
      exact hfirst ht
    · rw [hgo] at ht
      rcases ih ht with hmade | hrest
      · exact hfirst hmade
      · exact .inr (List.mem_append_right _ hrest)

/-- An operation that paints hands over the style in force, with its own changes to it. -/
theorem handed_painting {changes : Changes} {calls : Style → List (Call α)}
    (hcalls : ∀ s, (calls s).flatMap Call.styles ⊆ [s]) {c : Canvas (Heard σ α) α} {t : Style}
    (ht : t ∈ ((painting calls changes).run c).2.surface.handed) :
    t ∈ c.surface.handed ∨ c.styleFor changes = .ok t := by
  rw [painting, Act.run_bind_ok (Act.run_get c)] at ht
  cases hs : c.styleFor changes with
  | error e =>
    rw [hs] at ht
    exact .inl ht
  | ok s =>
    rw [hs, Act.run_bind_ok (Act.run_ofExcept _ c)] at ht
    rcases handed_performs ht with hheld | hcall
    · exact .inl hheld
    · rw [List.mem_singleton.mp (hcalls s hcall)]
      exact .inr rfl

variable [Scalar α]

theorem handed_quiet {op : Op α} (hp : op.paints = false) (c : Canvas (Heard σ α) α) :
    (step op c).2.surface.handed = c.surface.handed := by
  by_cases hr : op = .reset
  · subst hr
    rw [surface_reset]
    rfl
  · refine (asks_act hr).keeps (P := fun h : Heard σ α => h.handed = c.surface.handed)
      (fun k h hk hh => ?_) rfl
    rw [Heard.handed_perform, Call.styles_of_not_paints (Op.not_paints_of_asks hp hk), hh,
      List.append_nil]

theorem handed_step (op : Op α) (c : Canvas (Heard σ α) α) {t : Style}
    (ht : t ∈ (step op c).2.surface.handed) :
    t ∈ c.surface.handed ∨ ∃ changes, op.changes? = some changes ∧ c.styleFor changes = .ok t := by
  have hquiet : op.paints = false → t ∈ c.surface.handed := by
    intro hp
    rwa [handed_quiet hp] at ht
  cases op with
  | fill changes =>
    rw [step, act, fill_eq_painting] at ht
    exact (handed_painting (by simp) ht).imp_right fun hs => ⟨changes, rfl, hs⟩
  | stroke changes =>
    rw [step, act, stroke_eq_painting] at ht
    exact (handed_painting (by simp) ht).imp_right fun hs => ⟨changes, rfl, hs⟩
  | paint changes =>
    rw [step, act, paint_eq_painting] at ht
    exact (handed_painting (by simp) ht).imp_right fun hs => ⟨changes, rfl, hs⟩
  | _ => exact .inl (hquiet rfl)

/-- Every style of a canvas and every style that it has handed over can be had with the changes
of some sort. -/
def Obtains (given : Changes → Prop) (c : Canvas (Heard σ α) α) : Prop :=
  ∀ t, t ∈ c.styles ∨ t ∈ c.surface.handed → t.Obtained given

variable {given : Changes → Prop} {c : Canvas (Heard σ α) α}

omit [Surface σ α] [Scalar α] in
theorem Obtains.style (h : c.Obtains given) : c.style.Obtained given :=
  h c.style (.inl List.mem_cons_self)

theorem Obtains.step (h : c.Obtains given) {op : Op α}
    (hop : ∀ changes, op.changes? = some changes → given changes) (hnil : given []) :
    (Canvas.step op c).2.Obtains given := by
  rintro t (ht | ht)
  · rcases styles_step op c ht with hheld | rfl | ⟨changes, rfl, hset⟩
    · exact h t (.inl hheld)
    · exact .created hnil Style.create_nil
    · exact .updated h.style (hop changes rfl) hset
  · rcases handed_step op c ht with hheld | ⟨changes, hchanges, hs⟩
    · exact h t (.inr hheld)
    · rw [styleFor] at hs
      split at hs
      · cases hs
        exact h.style
      · exact .updated h.style (hop changes hchanges) hs

theorem Obtains.run {ops : List (Op α)} (h : c.Obtains given)
    (hops : ∀ op ∈ ops, ∀ changes, op.changes? = some changes → given changes)
    (hnil : given []) : (Canvas.run ops c).2.Obtains given := by
  induction ops generalizing c with
  | nil => exact h
  | cons op rest ih =>
    rw [List.forall_mem_cons] at hops
    exact ih (h.step hops.1 hnil) hops.2

omit [Surface σ α] [Scalar α] in
theorem obtains_fresh (s : σ) (autoOpen : Bool) (unit : AngleUnit) (hnil : given []) :
    (fresh (Heard.fresh s) autoOpen unit : Canvas (Heard σ α) α).Obtains given := by
  rintro t (ht | ht)
  · rw [List.mem_singleton.mp ht]
    exact .created hnil Style.create_nil
  · cases ht

/-- Every style that can be had is within its bounds, if its widths are numbers. They are numbers
unless another width was given, and every style takes such a width. What a canvas holds and hands
over, on whatever surface, are styles that can be had with the changes of its operations. -/
theorem style_sound_run (given : Changes → Prop) (ops : List (Op α)) (s : σ) (autoOpen : Bool)
    (unit : AngleUnit) :
    let heard := Canvas.run ops (fresh (Heard.fresh s : Heard σ α) autoOpen unit)
    (∀ t : Style, t.Obtained given →
      t.Sound ∧ (t.Positive ↔ t.Numeric) ∧
        ((∀ changes, given changes → changes.NumericWidths) → t.Positive) ∧
        ∀ x, Scalar.isNaN x → ∃ u,
          t.updated [(StyleAttribute.lineWidth.name, .real x)] = .ok u ∧ ¬ u.Positive) ∧
      Canvas.run ops (fresh s autoOpen unit) = (heard.1, heard.2.on heard.2.surface.surface) ∧
        heard.2.Obtains (Op.Given ops) := by
  intro heard
  have hnil : Op.Given ops [] := .inl rfl
  have hops : ∀ op ∈ ops, ∀ changes, op.changes? = some changes → Op.Given ops changes :=
    fun op hop changes h => .inr ⟨op, hop, h⟩
  refine ⟨fun t h => ?_, Heard.run_heard ops s autoOpen unit, ?_⟩
  · exact ⟨h.sound, h.sound.positive_iff, h.positive, fun x hx => h.exists_not_positive hx⟩
  · exact (obtains_fresh s autoOpen unit hnil).run hops hnil

def widened : List (Op Float) :=
  [.set [("line_width", .int 3)], .stroke [("miter_limit", .int 2)]]

theorem style_sound_run_widened :
    let heard := Canvas.run widened
      (fresh (Heard.fresh .empty : Heard (Recording Float) Float) true .radians)
    heard.2.style.Positive ∧ ∀ t ∈ heard.2.surface.handed, t.Positive := by
  intro heard
  obtain ⟨hstyles, -, hobtains⟩ :=
    style_sound_run (Op.Given widened) widened (.empty : Recording Float) true .radians
  have hnumeric : ∀ changes, Op.Given widened changes → changes.NumericWidths := by
    rintro changes (rfl | ⟨op, hop, hchanges⟩)
    · exact Changes.numericWidths_nil
    rcases List.mem_pair.mp hop with rfl | rfl
    all_goals
      cases hchanges
      refine Changes.numericWidths_cons (fun x hx => ?_) Changes.numericWidths_nil
      cases hx
      rfl
  have hpositive : ∀ t, t ∈ heard.2.styles ∨ t ∈ heard.2.surface.handed → t.Positive :=
    fun t ht => (hstyles t (hobtains t ht)).2.2.1 hnumeric
  exact ⟨hpositive _ (.inl List.mem_cons_self), fun t ht => hpositive t (.inr ht)⟩

theorem not_positive_after_set :
    let c : Canvas (Recording Float) Float := fresh .empty true .radians
    let ops : List (Op Float) := [.set [("line_width", .real Scalar.notANumber)], .stroke []]
    (Canvas.run ops c).1 = [.ok [], .ok []] ∧
      ¬ 0 < (Canvas.run ops c).2.style.lineWidth ∧
      (Canvas.run ops c).2.surface.calls = [.stroke (Canvas.run ops c).2.style] := by
  refine ⟨rfl, ?_, rfl⟩
  decide

end Canvas

end Linework
