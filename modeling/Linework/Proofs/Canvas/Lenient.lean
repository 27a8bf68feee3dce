import Linework.Proofs.Canvas.Checks
import Linework.Proofs.Canvas.Mask
import Linework.Proofs.Sheet.Replay

/-!
# Strict and lenient canvases

A lenient canvas opens a subpath where a strict one refuses to draw without a current point. This
is all that it does differently: as long as the strict canvas finds the points it asks for, the two
keep in step. Where it misses one, what it has drawn by then has been drawn by the lenient canvas
as well.
-/

set_option autoImplicit false

namespace Linework

/-- A fault that comes of a missing current point. -/
def Fault.OfNoPoint (e : Fault) : Prop := e.kind = .noCurrentPoint

instance : DecidablePred Fault.OfNoPoint := fun e =>
  inferInstanceAs (Decidable (e.kind = .noCurrentPoint))

theorem Fault.OfNoPoint.ofCheck {e : Fault} (h : e.OfNoPoint) : e.OfCheck := by
  cases e <;> first | rfl | cases h

def Mask.lenient : Mask := ⟨fun _ => true, id, id, id_default⟩

theorem Mask.fits_lenient : Mask.lenient.Fits Fault.OfNoPoint := by
  intro b
  cases b with
  | true => exact .inl rfl
  | false => exact .inr ⟨rfl, rfl⟩

namespace Canvas

variable {σ α : Type}

/-- The same canvas, except that it opens subpaths by itself. -/
def lenient (c : Canvas σ α) : Canvas σ α := { c with autoOpen := true }

theorem masked_lenient (c : Canvas σ α) : c.masked .lenient = c.lenient := by
  have hsaved : c.saved.map (Snapshot.masked .lenient) = c.saved := List.map_id c.saved
  rw [masked, hsaved]
  rfl

/-- An operation that fails for want of a current point. -/
def LacksPoint (o : Outcome) : Prop := ∃ e : Fault, o = .error e ∧ e.OfNoPoint

section Steps

variable [Scalar α] [Surface σ α]

theorem step_lenient (op : Op α) (c : Canvas σ α) :
    LacksPoint (step op c).1 ∨ step op c.lenient = ((step op c).1, (step op c).2.lenient) := by
  have hstep : Act.InStep Fault.OfNoPoint (masked .lenient)
      (act op : Act (Canvas σ α) (List Warning)) :=
    inStep_act (fun _ _ => rfl) (fun _ _ => rfl) Mask.fits_lenient
  rcases hstep c with ⟨e, t, hrun, he⟩ | hrun
  · exact .inl ⟨e, congrArg Prod.fst hrun, he⟩
  · rw [masked_lenient, masked_lenient] at hrun
    exact .inr hrun

theorem run_lenient {ops : List (Op α)} {c : Canvas σ α}
    (h : ∀ o ∈ (run ops c).1, ¬ LacksPoint o) :
    run ops c.lenient = ((run ops c).1, (run ops c).2.lenient) := by
  induction ops generalizing c with
  | nil => rfl
  | cons op rest ih =>
    rw [outcomes_cons, List.forall_mem_cons] at h
    have hop : step op c.lenient = ((step op c).1, (step op c).2.lenient) :=
      (step_lenient op c).resolve_left h.1
    apply Prod.ext
    · rw [outcomes_cons, outcomes_cons, hop, ih h.2]
    · rw [run_cons, run_cons, hop, ih h.2]

end Steps

section Following

variable [Scalar α] [Surface σ α] {op : Op α} {rest : List (Op α)} {c t : Canvas σ α}

theorem follow_cons_error {e : Fault} (h : step op c = (.error e, t)) :
    follow (op :: rest) c = (.error e, t) := by
  rw [follow, h]

theorem canvas_follow_cons_ok {w : List Warning} (h : step op c = (.ok w, t)) :
    (follow (op :: rest) c).2 = (follow rest t).2 := by
  rw [follow, h]
  dsimp only
  rcases follow rest t with ⟨_ | _, u⟩ <;> rfl

end Following

section Recordings

variable [Scalar α] {op : Op α} {c : Canvas (Recording α) α}

theorem calls_step_prefix (h : op ≠ .reset) (c : Canvas (Recording α) α) :
    c.surface.calls <+: (step op c).2.surface.calls := by
  obtain ⟨more, hmore⟩ := Recording.exists_calls_step h c
  exact ⟨more, hmore.symm⟩

theorem calls_follow_prefix {ops : List (Op α)} (h : ∀ op ∈ ops, op ≠ .reset)
    (c : Canvas (Recording α) α) : c.surface.calls <+: (follow ops c).2.surface.calls := by
  induction ops generalizing c with
  | nil => exact List.prefix_rfl
  | cons op rest ih =>
    have hop := calls_step_prefix (h op List.mem_cons_self) c
    rcases hs : step op c with ⟨e | w, t⟩ <;> rw [hs] at hop
    · rwa [follow_cons_error hs]
    · rw [canvas_follow_cons_ok hs]
      exact hop.trans (ih (fun o ho => h o (List.mem_cons_of_mem op ho)) t)

omit [Scalar α] in
theorem ne_reset_of_isCommand (h : op.isCommand) : op ≠ .reset := by
  rintro rfl
  cases h

theorem eq_of_lacksPoint (hop : op.isCommand) {e : Fault} {t : Canvas (Recording α) α}
    (h : step op c = (.error e, t)) (he : e.OfNoPoint) : t = c :=
  failsEarly_act hop c e t h he.ofCheck

theorem calls_commands_prefix {ops : List (Op α)} (h : ∀ op ∈ ops, op.isCommand)
    (c : Canvas (Recording α) α) :
    (follow ops c).2.surface.calls <+: (follow ops c.lenient).2.surface.calls := by
  induction ops generalizing c with
  | nil => exact List.prefix_rfl
  | cons op rest ih =>
    have hop := h op List.mem_cons_self
    rcases hs : step op c with ⟨e | w, t⟩
    · rw [follow_cons_error hs]
      rcases step_lenient op c with ⟨f, hf, he⟩ | hstep
      · rw [hs] at hf
        cases hf
        -- the strict row ends with what it had before, from where the lenient one goes on
        rw [eq_of_lacksPoint hop hs he]
        exact calls_follow_prefix (fun o ho => ne_reset_of_isCommand (h o ho)) c.lenient
      · rw [hs] at hstep
        rw [follow_cons_error hstep]
        exact List.prefix_rfl
    · rcases step_lenient op c with ⟨f, hf, -⟩ | hstep
      · rw [hs] at hf
        cases hf
      · rw [hs] at hstep
        rw [canvas_follow_cons_ok hs, canvas_follow_cons_ok hstep]
        exact ih (fun o ho => h o (List.mem_cons_of_mem op ho)) t

/-- Whatever a step records on a strict canvas, it begins with on a lenient one. -/
theorem calls_step_lenient_prefix (op : Op α) (c : Canvas (Recording α) α) :
    (step op c).2.surface.calls <+: (step op c.lenient).2.surface.calls := by
  have hcommands : ∀ ops : List (Op α), (∀ o ∈ ops, o.isCommand) →
      (∀ d : Canvas (Recording α) α, step op d = follow ops d) →
      (step op c).2.surface.calls <+: (step op c.lenient).2.surface.calls := by
    intro ops hops heq
    rw [heq, heq]
    exact calls_commands_prefix hops c
  cases ho : op.mayOpen with
  | false =>
    have hstep := commutes_act (g := .lenient) (fun _ _ => rfl) (fun _ _ => rfl) ho c
    rw [masked_lenient, masked_lenient] at hstep
    rw [step, step, hstep]
    exact List.prefix_rfl
  | true =>
    cases op with
    | command k as =>
      exact hcommands [_] (List.forall_mem_singleton.mpr rfl) fun d => (follow_singleton _ d).symm
    | roundedCorner p1 p2 r =>
      exact hcommands [_] (List.forall_mem_singleton.mpr rfl) fun d => (follow_singleton _ d).symm
    | path text =>
      rcases hp : (Outline.parse text : Except Fault (List (Outline.Element α))) with e | es
      · rw [step_path_of_error hp, step_path_of_error hp]
        exact List.prefix_rfl
      · refine hcommands (es.map Op.ofElement) (fun o ho => ?_) (step_path_of_ok hp)
        obtain ⟨x, -, rfl⟩ := List.mem_map.mp ho
        rfl
    | _ => cases ho

/-- On a recording, being lenient changes nothing of a run in which the strict canvas never misses
a current point. Up to the first operation that misses one the runs are the same, and what the
strict canvas records of that operation is where the lenient one begins. -/
theorem lenient_run (ops : List (Op α)) (r : Recording α) (unit : AngleUnit) :
    let strict : Canvas (Recording α) α := fresh r false unit
    let relaxed : Canvas (Recording α) α := fresh r true unit
    ((∀ o ∈ (run ops strict).1, ¬ LacksPoint o) →
      run ops relaxed = ((run ops strict).1, { (run ops strict).2 with autoOpen := true })) ∧
    ∀ before op after, ops = before ++ op :: after →
      (∀ o ∈ (run before strict).1, ¬ LacksPoint o) →
      LacksPoint (step op (run before strict).2).1 →
        run before relaxed =
            ((run before strict).1, { (run before strict).2 with autoOpen := true }) ∧
          (step op (run before strict).2).2.surface.calls <+:
            (step op (run before relaxed).2).2.surface.calls := by
  intro strict relaxed
  have hsame : ∀ ops, (∀ o ∈ (run ops strict).1, ¬ LacksPoint o) →
      run ops relaxed = ((run ops strict).1, (run ops strict).2.lenient) :=
    fun ops h => run_lenient h
  refine ⟨hsame ops, fun before op after _ hbefore _ => ⟨hsame before hbefore, ?_⟩⟩
  rw [hsame before hbefore]
  exact calls_step_lenient_prefix op _

theorem lenient_run_from_nowhere :
    let strict : Canvas (Recording Float) Float := fresh .empty false .degrees
    let relaxed : Canvas (Recording Float) Float := fresh .empty true .degrees
    let close : Op Float := .command ⟨.close, false⟩ []
    let line : Op Float := .command ⟨.line, false⟩ [.number 1, .number 2]
    LacksPoint (step line (run [close] strict).2).1 ∧
      run [close] relaxed =
        ((run [close] strict).1, { (run [close] strict).2 with autoOpen := true }) ∧
      (step line (run [close] strict).2).2.surface.calls <+:
        (step line (run [close] relaxed).2).2.surface.calls := by
  intro strict relaxed close line
  have hlacks : LacksPoint (step line (run [close] strict).2).1 := ⟨.noOpenSubpath, rfl, rfl⟩
  have hclose : ∀ o ∈ (run [close] strict).1, ¬ LacksPoint o := by
    intro o ho ⟨e, he, _⟩
    rw [List.mem_singleton.mp ho] at he
    cases he
  exact ⟨hlacks, (lenient_run [close, line] .empty .degrees).2 [close] line [] rfl hclose hlacks⟩

end Recordings

end Canvas

end Linework
