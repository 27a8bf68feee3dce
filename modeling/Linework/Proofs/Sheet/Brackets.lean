import Linework.Proofs.Canvas.Matched
import Linework.Proofs.Sheet.Saves
import Mathlib.Data.List.Infix

/-!
# Brackets of saving and restoring

A run that does not reset and never goes below the depth at which it starts leaves what is saved at
that depth in place. If it ends there, too, then saving before it and restoring after it are a
bracket: what was saved is in force again and both stacks are as they were, whatever has failed in
between.
-/

set_option autoImplicit false

namespace Linework

theorem Op.suffix_stack {α β : Type} {op : Op α} {x : β} {bottom saved : List β}
    (h : bottom <:+ saved) (hr : op ≠ .reset) (hdeep : bottom.length ≤ (op.stack x saved).length) :
    bottom <:+ op.stack x saved := by
  cases op with
  | save => exact h.trans (List.suffix_cons x saved)
  | restore => exact List.suffix_of_suffix_length_le h (List.tail_suffix saved) hdeep
  | reset => exact absurd rfl hr
  | _ => exact h

namespace Canvas

section Runs

variable {σ α : Type} [Scalar α] [Surface σ α]

/-- A run without a reset that never goes below the depth at which it starts, and ends there. -/
structure Encloses (ops : List (Op α)) (c : Canvas σ α) : Prop where
  no_reset : ∀ op ∈ ops, op ≠ .reset
  never_below : ∀ before, before <+: ops → c.saved.length ≤ (run before c).2.saved.length
  level : (run ops c).2.saved.length = c.saved.length

variable {β : Type} {P : Canvas σ α → Prop} {stack : Canvas σ α → List β} {top : Canvas σ α → β}

theorem suffix_run (hP : ∀ op c, P c → P (step op c).2)
    (hstack : ∀ (op : Op α) c, P c → stack (step op c).2 = op.stack (top c) (stack c))
    {ops : List (Op α)} {c : Canvas σ α} (hc : P c) {bottom : List β}
    (hbottom : bottom <:+ stack c) (hr : ∀ op ∈ ops, op ≠ .reset)
    (hdeep : ∀ before, before <+: ops → bottom.length ≤ (stack (run before c).2).length) :
    bottom <:+ stack (run ops c).2 := by
  -- along the run: an operation that leaves the stack deep enough leaves what is at its bottom
  induction ops generalizing c with
  | nil => exact hbottom
  | cons op rest ih =>
    have hfirst : bottom.length ≤ (stack (step op c).2).length :=
      hdeep [op] (List.prefix_append [op] rest)
    rw [hstack op c hc] at hfirst
    apply ih (hP op c hc)
    · rw [hstack op c hc]
      exact Op.suffix_stack hbottom (hr op List.mem_cons_self) hfirst
    · exact fun o ho => hr o (List.mem_cons_of_mem op ho)
    · intro before hb
      exact hdeep (op :: before) ((List.cons_prefix_cons).mpr ⟨rfl, hb⟩)

theorem Encloses.stack_eq {ops : List (Op α)} {c : Canvas σ α} (h : Encloses ops c)
    (stack : Canvas σ α → List β)
    (hP : ∀ op c, P c → P (step op c).2)
    (hstack : ∀ (op : Op α) c, P c → stack (step op c).2 = op.stack (top c) (stack c))
    (hlen : ∀ c, P c → (stack c).length = c.saved.length) (hc : P c) :
    stack (run ops c).2 = stack c := by
  have hend : (stack (run ops c).2).length = (stack c).length := by
    rw [hlen _ (run_keeps hP ops hc), hlen c hc, h.level]
  have hsuffix := suffix_run hP hstack hc (List.suffix_refl (stack c)) h.no_reset
    fun before hb => by
      rw [hlen c hc, hlen _ (run_keeps hP before hc)]
      exact h.never_below before hb
  exact (hsuffix.eq_of_length hend.symm).symm

/-- What saving a canvas means: restoring after a bracket brings back the unit, the style and both
stacks with what is seen of the surface, and going back is restoring and saving again. -/
structure Brackets {τ : Type} (view : σ → τ) (c : Canvas σ α) : Prop where
  resumes : ∀ ops, Encloses ops (step .save c).2 →
    (run (.save :: ops ++ [.restore]) c).2.snapshot = c.snapshot ∧
      held view (run (.save :: ops ++ [.restore]) c).2 = held view c
  reverts : c.saved ≠ [] →
    step .revert c = (.ok [], (run [.restore, .save] c).2) ∧
      (run [.restore, .save] c).1 = [.ok [], .ok []]

theorem run_bracket (ops : List (Op α)) (c : Canvas σ α) :
    (run (.save :: ops ++ [.restore]) c).2 = (step .restore (run ops (step .save c).2).2).2 := by
  rw [List.cons_append, run_cons, run_append]
  rfl

end Runs

section Recordings

variable {α : Type} [Scalar α] {c : Canvas (Recording α) α}

theorem recording_restore {n : Snapshot} {rest : List Snapshot} (hc : c.saved = n :: rest) :
    step .restore c =
      (.ok [], { c.apply n with surface := c.surface.record .restore, saved := rest }) :=
  run_restore_of_cons hc rfl

theorem recording_revert {n : Snapshot} {rest : List Snapshot} (hc : c.saved = n :: rest) :
    step .revert c =
      (.ok [], { c.apply n with surface := (c.surface.record .restore).record .save }) :=
  run_revert_of_cons hc rfl rfl

theorem saved_step (op : Op α) (c : Canvas (Recording α) α) :
    (step op c).2.saved = op.stack c.snapshot c.saved := by
  cases hop : op.isSaving with
  | false =>
    have hv : SeesSaves fun _ : Recording α => () := fun _ _ _ _ => rfl
    rw [op.stack_of_not_saving hop]
    exact congrArg Prod.fst (held_step hv hop c)
  | true =>
    cases op with
    | save | reset => rfl
    | restore =>
      cases hc : c.saved with
      | nil =>
        rw [step, act, run_restore_of_nil hc, hc]
        rfl
      | cons n rest =>
        rw [recording_restore hc]
        rfl
    | revert =>
      cases hc : c.saved with
      | nil =>
        rw [step, act, run_revert_of_nil hc, hc]
        rfl
      | cons n rest =>
        rw [recording_revert hc]
        exact hc
    | _ => cases hop

theorem brackets_recording (c : Canvas (Recording α) α) : Brackets (fun _ => ()) c where
  resumes := by
    intro ops h
    have hsaved : (run ops (step .save c).2).2.saved = c.snapshot :: c.saved :=
      h.stack_eq Canvas.saved (P := fun _ => True) (fun _ _ _ => trivial)
        (fun op c _ => saved_step op c) (fun _ _ => rfl) trivial
    rw [run_bracket, recording_restore hsaved]
    exact ⟨rfl, rfl⟩
  reverts := by
    intro hne
    obtain ⟨n, rest, hc⟩ := List.exists_cons_of_ne_nil hne
    have hboth : run [.restore, .save] c =
        ([.ok [], .ok []], { c.apply n with
          surface := (c.surface.record .restore).record .save, saved := n :: rest }) := by
      rw [run, recording_restore hc]
      rfl
    rw [hboth, recording_revert hc, ← hc]
    exact ⟨rfl, rfl⟩

end Recordings

section Sheets

variable {α : Type} [Scalar α] [HasAxes α]

/-- As many transforms on the sheet as snapshots on the canvas. -/
def Level (c : Canvas (Sheet α) α) : Prop := c.saved.length = c.surface.saved.length

theorem level_step (op : Op α) (c : Canvas (Sheet α) α) (h : Level c) : Level (step op c).2 := by
  have hs := saves_step op h
  rw [saves, Prod.mk.injEq] at hs
  rw [Level, hs.1, hs.2]
  exact op.length_stack _ _ h

theorem brackets_sheet {c : Canvas (Sheet α) α} (h : Level c) :
    Brackets (fun s => (s.transform, s.saved)) c where
  resumes := by
    intro ops hops
    have hl : Level (step .save c).2 := level_step .save c h
    have hsaved : (run ops (step .save c).2).2.saved = c.snapshot :: c.saved :=
      hops.stack_eq Canvas.saved level_step (fun op c hc => congrArg Prod.fst (saves_step op hc))
        (fun _ _ => rfl) hl
    have htransforms : (run ops (step .save c).2).2.surface.saved =
        c.surface.transform :: c.surface.saved :=
      hops.stack_eq (fun c => c.surface.saved) level_step
        (fun op c hc => congrArg Prod.snd (saves_step op hc)) (fun _ hc => hc.symm) hl
    rw [run_bracket, step, act, run_restore hsaved htransforms]
    exact ⟨rfl, rfl⟩
  reverts := by
    intro hne
    obtain ⟨n, rest, hc⟩ := List.exists_cons_of_ne_nil hne
    obtain ⟨m, ms, hs⟩ := exists_saved_cons h hc
    have hboth : run [.restore, .save] c =
        ([.ok [], .ok []], { c.apply n with
          surface := { c.surface with transform := m, saved := m :: ms }
          saved := n :: rest }) := by
      rw [run, step, act, run_restore hc hs]
      rfl
    rw [hboth, step, act, run_revert hc hs, ← hc]
    exact ⟨rfl, rfl⟩

/-- After every run, over an empty recording and over a blank sheet. On the recording the savings
that no restoring belongs to are counted, on the sheet the transforms. -/
theorem brackets_run (width height fileName : String) (autoOpen : Bool) (unit : AngleUnit)
    (ops : List (Op α)) :
    let r := (run ops (fresh .empty autoOpen unit : Canvas (Recording α) α)).2
    let c := (run ops (fresh (Sheet.blank width height fileName) autoOpen unit :
      Canvas (Sheet α) α)).2
    (Call.Matched r.surface.calls r.saved.length ∧ Brackets (fun _ => ()) r) ∧
      c.saved.length = c.surface.saved.length ∧
        Brackets (fun s => (s.transform, s.saved)) c := by
  intro r c
  have hlevel : Level c := run_keeps level_step ops rfl
  exact ⟨⟨counted_run autoOpen unit ops, brackets_recording r⟩, hlevel, brackets_sheet hlevel⟩

theorem brackets_run_shifted :
    let c := (run [.setUnit (.text "degrees")]
      (fresh (Sheet.blank "1" "1" "") true .radians : Canvas (Sheet Float) Float)).2
    let ops : List (Op Float) := [.translate ⟨.number 3, .number 4⟩, .save, .restore, .revert]
    Encloses ops (step .save c).2 ∧
      held (fun s => (s.transform, s.saved)) (run (.save :: ops ++ [.restore]) c).2 =
        held (fun s => (s.transform, s.saved)) c := by
  intro c ops
  have hops : Encloses ops (step .save c).2 := by
    refine ⟨by simp [ops], fun before hb => ?_, by decide +kernel⟩
    have hdeep : ∀ before ∈ ops.inits,
        (step .save c).2.saved.length ≤ (run before (step .save c).2).2.saved.length := by
      decide +kernel
    exact hdeep before ((List.mem_inits before ops).mpr hb)
  exact ⟨hops, ((brackets_run "1" "1" "" true .radians [.setUnit (.text "degrees")]).2.2.resumes
    ops hops).2⟩

end Sheets

end Canvas

end Linework
