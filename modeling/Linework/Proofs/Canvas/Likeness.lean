import Linework.Proofs.Canvas.Course
import Linework.Proofs.Canvas.Recorded
import Linework.Proofs.Number.Alike
import Mathlib.Data.List.Forall2
import Mathlib.Data.Option.Basic

/-!
# Canvases that are alike

Two recordings of calls are alike if the calls are the same with arguments that are equal as
numbers, and two pens if they are at points that are. Lines through points that are alike lead to
canvases that are alike.
-/

set_option autoImplicit false

namespace Linework

section Definitions

variable {α : Type} [Scalar α]

structure Point.Alike (p q : Point α) : Prop where
  x : Scalar.Alike p.x q.x
  y : Scalar.Alike p.y q.y

/-- The same, or numbers that are alike. -/
def Argument.Alike (a b : Argument α) : Prop :=
  a = b ∨ ∃ x y, a = .number x ∧ b = .number y ∧ Scalar.Alike x y

structure Call.Alike (k l : Call α) : Prop where
  primitive : k.primitive = l.primitive
  arguments : List.Forall₂ Argument.Alike k.arguments l.arguments

structure Pen.Alike (p q : Pen α) : Prop where
  current : Option.Rel Point.Alike p.current q.current
  start : Option.Rel Point.Alike p.start q.start
  cubic : Option.Rel Point.Alike p.cubic q.cubic
  quadratic : Option.Rel Point.Alike p.quadratic q.quadratic
  unit : p.unit = q.unit

/-- Canvases that differ at most in what is recorded and in the pen, and there only as numbers that
are alike do. -/
structure Canvas.Alike (c d : Canvas (Recording α) α) : Prop where
  calls : List.Forall₂ Call.Alike c.surface.calls d.surface.calls
  pen : c.pen.Alike d.pen
  autoOpen : c.autoOpen = d.autoOpen
  defaultUnit : c.defaultUnit = d.defaultUnit
  style : c.style = d.style
  saved : c.saved = d.saved

theorem Option.rel_of_eq {β : Type} {r : β → β → Prop} (h : ∀ b, r b b) (o : Option β) :
    Option.Rel r o o := by
  cases o with
  | none => exact .none
  | some b => exact .some (h b)

theorem Point.Alike.refl (p : Point α) : p.Alike p := ⟨.refl p.x, .refl p.y⟩

theorem Argument.Alike.refl (a : Argument α) : a.Alike a := .inl rfl

theorem Argument.Alike.number {x y : α} (h : Scalar.Alike x y) :
    (Argument.number x).Alike (.number y) :=
  .inr ⟨x, y, rfl, rfl, h⟩

theorem Call.Alike.refl (k : Call α) : k.Alike k := ⟨rfl, List.forall₂_same.mpr fun a _ => .refl a⟩

theorem Pen.Alike.refl (p : Pen α) : p.Alike p :=
  ⟨Option.rel_of_eq .refl _, Option.rel_of_eq .refl _, Option.rel_of_eq .refl _,
    Option.rel_of_eq .refl _, rfl⟩

theorem Canvas.Alike.refl (c : Canvas (Recording α) α) : c.Alike c :=
  ⟨List.forall₂_same.mpr fun k _ => .refl k, .refl c.pen, rfl, rfl, rfl, rfl⟩

end Definitions

section Lines

variable {α : Type} [Scalar α] {ps qs : List (Point α)}

theorem Call.alike_lineTo {p q : Point α} (h : p.Alike q) :
    (Call.lineTo p).Alike (Call.lineTo q) :=
  ⟨rfl, .cons (.number h.x) (.cons (.number h.y) .nil)⟩

theorem Pen.alike_moveTo (p : Pen α) {z w : Option (Point α)}
    (h : Option.Rel Point.Alike z w) : (z.elim p p.moveTo).Alike (w.elim p p.moveTo) := by
  cases h with
  | none => exact .refl p
  | some h => exact ⟨.some h, Option.rel_of_eq .refl _, .none, .none, rfl⟩

theorem rel_getLast? {β γ : Type} {r : β → γ → Prop} {bs : List β} {cs : List γ}
    (h : List.Forall₂ r bs cs) : Option.Rel r bs.getLast? cs.getLast? := by
  induction h with
  | nil => exact .none
  | cons hb ht ih =>
    cases ht with
    | nil => exact .some hb
    | cons => simpa using ih

namespace Canvas

def lined (c : Canvas (Recording α) α) (zs : List (Point α)) : Canvas (Recording α) α :=
  { c with
    surface := c.surface.recordAll (zs.map .lineTo)
    pen := zs.getLast?.elim c.pen c.pen.moveTo }

omit [Scalar α] in
theorem run_drawLines (zs : List (Point α)) (c : Canvas (Recording α) α) :
    (drawLines zs).run c = (.ok (), c.lined zs) := by
  rw [drawLines_eq_segments, drawSegments, run_drawThen_recording, List.map_map, Pen.followAll,
    List.getLast?_map, lined]
  cases zs.getLast? <;> rfl

theorem alike_lined (c : Canvas (Recording α) α) (h : List.Forall₂ Point.Alike ps qs) :
    (c.lined ps).Alike (c.lined qs) := by
  refine ⟨?_, ?_, rfl, rfl, rfl, rfl⟩
  · simp only [lined, Recording.calls_recordAll]
    refine List.rel_append (List.forall₂_same.mpr fun k _ => .refl k) ?_
    rw [List.forall₂_map_left_iff, List.forall₂_map_right_iff]
    exact h.imp fun p q hpq => Call.alike_lineTo hpq
  · exact Pen.alike_moveTo c.pen (rel_getLast? h)

end Canvas

end Lines

end Linework
