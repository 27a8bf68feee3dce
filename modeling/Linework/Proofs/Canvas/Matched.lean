import Linework.Proofs.Canvas.Held
import Linework.Proofs.Canvas.Recorded
import Mathlib.Data.List.Induction

/-!
# Saves that are recorded

Among the calls of a recording every restoring belongs to an earlier saving. The savings that are
left over are as many as the snapshots of the canvas.
-/

set_option autoImplicit false

namespace Linework

namespace Call

variable {α : Type}

def countOf (p : Primitive) (calls : List (Call α)) : Nat := calls.countP fun k => k.primitive == p

theorem countOf_append (p : Primitive) (calls more : List (Call α)) :
    countOf p (calls ++ more) = countOf p calls + countOf p more :=
  List.countP_append

theorem countOf_eq_zero {p : Primitive} {calls : List (Call α)}
    (h : ∀ k ∈ calls, k.primitive ≠ p) : countOf p calls = 0 := by
  rw [countOf, List.countP_eq_zero]
  simpa using h

/-- Calls that have restored no more than they had saved, at any time, and have `depth` savings
left over. -/
structure Matched (calls : List (Call α)) (depth : Nat) : Prop where
  never_below : ∀ first, first <+: calls → countOf .restore first ≤ countOf .save first
  left_over : countOf .save calls = countOf .restore calls + depth

namespace Matched

variable {calls more : List (Call α)} {depth : Nat}

theorem nil : Matched ([] : List (Call α)) 0 := by
  refine ⟨fun first h => ?_, rfl⟩
  rw [List.prefix_nil.mp h]
  exact Nat.le_refl _

theorem concat {k : Call α} {after : Nat} (h : Matched calls depth)
    (hk : countOf .save (calls ++ [k]) = countOf .restore (calls ++ [k]) + after) :
    Matched (calls ++ [k]) after := by
  refine ⟨fun first hf => ?_, hk⟩
  rcases List.prefix_concat_iff.mp hf with rfl | hf
  · omega
  · exact h.never_below first hf

theorem save (h : Matched calls depth) : Matched (calls ++ [.save]) (depth + 1) := by
  apply h.concat
  rw [countOf_append, countOf_append, h.left_over]
  have hs : countOf .save [(Call.save : Call α)] = 1 := rfl
  have hr : countOf .restore [(Call.save : Call α)] = 0 := rfl
  omega

theorem restore (h : Matched calls (depth + 1)) : Matched (calls ++ [.restore]) depth := by
  apply h.concat
  rw [countOf_append, countOf_append, h.left_over]
  have hs : countOf .save [(Call.restore : Call α)] = 0 := rfl
  have hr : countOf .restore [(Call.restore : Call α)] = 1 := rfl
  omega

theorem others (h : Matched calls depth)
    (hm : ∀ k ∈ more, k.primitive ≠ .save ∧ k.primitive ≠ .restore) :
    Matched (calls ++ more) depth := by
  induction more using List.reverseRecOn with
  | nil => rwa [List.append_nil]
  | append_singleton more k ih =>
    have hmore := ih fun l hl => hm l (List.mem_append_left _ hl)
    have hk := hm k (by simp)
    rw [← List.append_assoc]
    apply hmore.concat
    rw [countOf_append _ (calls ++ more), countOf_append _ (calls ++ more), hmore.left_over,
      countOf_eq_zero (List.forall_mem_singleton.mpr hk.1),
      countOf_eq_zero (List.forall_mem_singleton.mpr hk.2), Nat.add_right_comm]

end Matched

end Call

namespace Canvas

variable {α : Type} {c t : Canvas (Recording α) α}

def Counted (c : Canvas (Recording α) α) : Prop := Call.Matched c.surface.calls c.saved.length

theorem counted_recordAll {calls : List (Call α)} (hs : t.surface = c.surface.recordAll calls)
    (h : Call.Matched (c.surface.calls ++ calls) t.saved.length) : Counted t := by
  rwa [Counted, hs, Recording.calls_recordAll]

theorem counted_others {calls : List (Call α)} (h : Counted c)
    (hk : ∀ k ∈ calls, k.primitive ≠ .save ∧ k.primitive ≠ .restore)
    (hs : t.surface = c.surface.recordAll calls) (hc : t.saved = c.saved) : Counted t := by
  apply counted_recordAll hs
  rw [hc]
  exact h.others hk

theorem saved_of_drawing [Scalar α] {stops : Prop} (hd : Drawing stops c t) :
    t.saved = c.saved := by
  cases hd <;> rfl

theorem counted_drawing [Scalar α] {stops : Prop} (hd : Drawing stops c t) (h : Counted c) :
    Counted t := by
  obtain ⟨calls, q, hp, hs, -⟩ := recorded_of_drawing hd
  exact counted_others h (fun k hk => Primitive.not_saving_of_isPath (hp.isPath k hk)) hs
    (saved_of_drawing hd)

theorem counted_turn (ht : Turn c t) (h : Counted c) : Counted t := by
  cases ht with
  | idle | unit _ | style _ => exact h
  | @lifted k w s hl hs =>
    refine counted_others h (List.forall_mem_singleton.mpr ?_) (Recording.eq_of_performAll hs) rfl
    revert hl
    cases k.primitive <;> decide
  | saved hs => exact counted_recordAll (Recording.eq_of_performAll hs) h.save
  | restored hn hs =>
    rw [Counted, hn] at h
    exact counted_recordAll (Recording.eq_of_performAll hs) h.restore
  | @reverted n rest w s hn hs =>
    rw [Counted, hn] at h
    have hrevert := h.restore.save
    rw [List.append_assoc] at hrevert
    apply counted_recordAll (Recording.eq_of_performAll hs)
    change Call.Matched _ c.saved.length
    rwa [hn]
  | painted hk hs =>
    refine counted_others h (fun k hmem => ?_) (Recording.eq_of_performAll hs) rfl
    rcases hk k hmem with hp | hp <;> rw [hp] <;> decide
  | refused hk hs => exact absurd hs Recording.not_refused
  | reset hs =>
    cases hs
    exact .nil
  | resetRefused hs => cases hs

theorem counted_run [Scalar α] (autoOpen : Bool) (unit : AngleUnit) (ops : List (Op α)) :
    Counted (run ops (fresh .empty autoOpen unit : Canvas (Recording α) α)).2 :=
  run_keeps (P := Counted) (step_keeps counted_drawing counted_turn) ops .nil

end Canvas

end Linework
