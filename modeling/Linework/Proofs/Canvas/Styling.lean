import Linework.Proofs.Canvas.Mask
import Linework.Proofs.Canvas.Passages
import Linework.Proofs.Canvas.Session
import Linework.Proofs.Sheet.Replay

/-!
# Styling leaves no trace

Setting a style and painting can be left out of a run on a recording: all other operations do what
they did before, and nothing but the fills and strokes is missing from the recording. If only the
painting is left out, the styles are not even changed, for the attributes given with a painting
operation are meant for it alone.
-/

set_option autoImplicit false

namespace Linework

def Mask.plain : Mask := ⟨id, id, fun _ => .default, rfl⟩

def Recording.unpainted {α : Type} (r : Recording α) : Recording α :=
  ⟨r.backwards.filter fun k => !k.primitive.paints⟩

theorem Recording.unpainted_recordAll {α : Type} (r : Recording α) (calls : List (Call α)) :
    (r.recordAll calls).unpainted =
      r.unpainted.recordAll (calls.filter fun k => !k.primitive.paints) := by
  rw [unpainted, unpainted, recordAll, recordAll, List.filter_append, List.filter_reverse]

namespace Canvas

variable {α : Type}

def unpainted (c : Canvas (Recording α) α) : Canvas (Recording α) α :=
  { c with surface := c.surface.unpainted }

def unstyled (c : Canvas (Recording α) α) : Canvas (Recording α) α :=
  { c.unpainted with style := .default, saved := c.saved.map fun n => { n with style := .default } }

theorem unpainted_painting {k : Call α} (hk : k.primitive.paints) :
    Act.Leaves unpainted (perform k : Act (Canvas (Recording α) α) (List Warning)) := by
  intro c
  have hnone : [k].filter (fun k => !k.primitive.paints) = [] :=
    List.filter_cons_of_neg (by simp [hk])
  have hrun : (perform k).run c = (.ok [], { c with surface := c.surface.recordAll [k] }) := rfl
  rw [hrun, unpainted, Recording.unpainted_recordAll, hnone]
  rfl

variable [Scalar α]

theorem leaves_unpainted {op : Op α} (h : op.paints) : Act.Leaves unpainted (act op) := by
  cases op with
  | fill changes => exact leaves_fill (fun _ => unpainted_painting rfl) changes
  | stroke changes => exact leaves_stroke (fun _ => unpainted_painting rfl) changes
  | paint changes =>
    exact leaves_paint (fun _ => unpainted_painting rfl) (fun _ => unpainted_painting rfl) changes
  | _ => cases h

theorem leaves_unstyled {op : Op α} (h : op.usesStyle) : Act.Leaves unstyled (act op) := by
  by_cases hp : op.paints
  · exact (leaves_unpainted hp).part (masked .plain)
  · cases op with
    | set changes => exact leaves_quietly (leaves_setStyle (fun _ _ => rfl) changes)
    | fill _ | stroke _ | paint _ => exact absurd rfl hp
    | _ => cases h

/-- What is recorded of an operation that does not paint is recorded without the paint as well. -/
theorem commutes_unpainted {op : Op α} (h : op.paints = false) :
    Act.Commutes unpainted (act op) := by
  intro c
  by_cases hr : op = .reset
  · subst hr
    rfl
  obtain ⟨p, -, hp⟩ := planned_act hr (c.on ())
  have hrun : ∀ r : Recording α, (act op).run (c.on r) =
      (p.answer [], p.after.on (r.recordAll p.calls)) :=
    fun r => (hp _ r).trans (Recording.on_recording p r)
  have hnone : p.calls.filter (fun k => k.primitive.paints) = [] := by
    have hpainted := surface_painted_step h hr (c.on c.surface)
    rw [step, hrun] at hpainted
    change (c.surface.recordAll p.calls).painted = c.surface.painted at hpainted
    rwa [Recording.painted_recordAll, List.append_right_eq_self] at hpainted
  have hall : p.calls.filter (fun k => !k.primitive.paints) = p.calls := by
    rw [List.filter_eq_nil_iff] at hnone
    exact List.filter_eq_self.mpr fun k hk => by simpa using hnone k hk
  have hkept : (c.surface.recordAll p.calls).unpainted = c.surface.unpainted.recordAll p.calls := by
    rw [Recording.unpainted_recordAll, hall]
  have hc : (act op).run c = (p.answer [], p.after.on (c.surface.recordAll p.calls)) :=
    hrun c.surface
  have hmapped : (act op).run c.unpainted =
      (p.answer [], p.after.on (c.surface.unpainted.recordAll p.calls)) :=
    hrun c.surface.unpainted
  rw [hc, hmapped, ← hkept]
  rfl

theorem commutes_unstyled {op : Op α} (h : op.usesStyle = false) :
    Act.Commutes unstyled (act op) := by
  have hp : op.paints = false := by cases op <;> first | rfl | cases h
  have hplain : Act.Commutes (masked .plain) (act op : Act (Canvas (Recording α) α) _) :=
    commutes_act_of_autoOpen (fun _ _ => rfl) (fun hs => absurd (hs.symm.trans h) (by simp))
      fun _ => rfl
  exact hplain.comp (commutes_unpainted hp)

/-- On a recording, setting styles and painting can be deleted from a run without a trace in what
the other operations find, answer and leave. Deleting the painting alone does not even change the
styles. What is painted carries the style of the session, with the attributes of the call. -/
theorem styling_run (ops : List (Op α)) (autoOpen : Bool) (unit : AngleUnit) :
    let start : Canvas (Recording α) α := fresh .empty autoOpen unit
    let unstyledOps := ops.filter fun op => !op.usesStyle
    let unpaintedOps := ops.filter fun op => !op.paints
    (passages unstyledOps start =
        ((passages ops start).filter fun p => !p.op.usesStyle).map (Passage.map unstyled) ∧
      (run unstyledOps start).2 = (run ops start).2.unstyled) ∧
    (passages unpaintedOps start =
        ((passages ops start).filter fun p => !p.op.paints).map (Passage.map unpainted) ∧
      (run unpaintedOps start).2 = (run ops start).2.unpainted) ∧
    (run ops start).2.session = ops.foldl Session.after .initial := by
  intro start unstyledOps unpaintedOps
  refine ⟨?_, ?_, session_run ops (made_fresh autoOpen unit)⟩
  · exact passages_filter (f := unstyled) (fun op => !op.usesStyle)
      (fun op hk => commutes_unstyled (by simpa using hk))
      (fun op hk => leaves_unstyled (by simpa using hk)) ops start
  · exact passages_filter (f := unpainted) (fun op => !op.paints)
      (fun op hk => commutes_unpainted (by simpa using hk))
      (fun op hk => leaves_unpainted (by simpa using hk)) ops start

end Canvas

end Linework
