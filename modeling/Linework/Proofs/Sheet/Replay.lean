import Linework.Proofs.Canvas.Recorded
import Linework.Proofs.Sheet.Frame

/-!
# Replaying a recording

The same operations on a sheet and on a recording. As long as the sheet refuses nothing, the two
canvases are the same and the recording, replayed on a blank sheet, gives the sheet again: the
calls agree, since a canvas asks every surface for the same. Where the sheet refuses a call the
canvas on it breaks off and the one on the recording does not, so a replay meets the same refusal,
unless a reset has cleared the recording since.
-/

set_option autoImplicit false

namespace Linework

namespace Recording

variable {α : Type}

theorem on_recording {β : Type} (p : Plan α β) (r : Recording α) :
    p.on r = (p.answer [], p.after.on (r.recordAll p.calls)) :=
  Plan.on_of_none (performAll_eq _ _)

variable [Scalar α]

theorem exists_calls_step {op : Op α} (h : op ≠ .reset) (c : Canvas (Recording α) α) :
    ∃ more, (Canvas.step op c).2.surface.calls = c.surface.calls ++ more := by
  obtain ⟨p, -, hp⟩ := Canvas.planned_act h (c.on ())
  have hstep : Canvas.step op c = p.on c.surface := hp _ c.surface
  refine ⟨p.calls, ?_⟩
  rw [hstep, on_recording]
  exact calls_recordAll _ _

theorem exists_calls_run {ops : List (Op α)} (h : ∀ op ∈ ops, op ≠ .reset)
    (c : Canvas (Recording α) α) :
    ∃ more, (Canvas.run ops c).2.surface.calls = c.surface.calls ++ more := by
  induction ops generalizing c with
  | nil => exact ⟨[], (List.append_nil _).symm⟩
  | cons op rest ih =>
    obtain ⟨first, hf⟩ := exists_calls_step (h op List.mem_cons_self) c
    obtain ⟨more, hm⟩ := ih (fun o ho => h o (List.mem_cons_of_mem op ho)) (Canvas.step op c).2
    exact ⟨first ++ more, by rw [Canvas.run_cons, hm, hf, List.append_assoc]⟩

end Recording

namespace Sheet

variable {α : Type}

def OnlyNothing (w : List Warning) : Prop := ∀ x ∈ w, x = .nothingToPaint

theorem onlyNothing_nil : OnlyNothing [] := by
  intro x hx
  cases hx

theorem answers_change (f : Sheet α → Sheet α) : Act.Answers OnlyNothing (change f) :=
  Act.answers_bind fun _ => Act.answers_pure onlyNothing_nil

theorem answers_draw (m : Act (Sheet α) Unit) : Act.Answers OnlyNothing (draw m) :=
  Act.answers_bind fun _ => Act.answers_pure onlyNothing_nil

theorem answers_paint (ink : Ink) : Act.Answers OnlyNothing (paint ink : Act (Sheet α) _) := by
  refine Act.answers_bind fun s => ?_
  split
  · exact Act.answers_pure (List.forall_mem_singleton.mpr rfl)
  split
  · exact Act.answers_bind fun _ => Act.answers_pure onlyNothing_nil
  · exact Act.answers_throw _

variable [Scalar α] [HasAxes α]

theorem answers_performs {p : Primitive} {m : Act (Sheet α) (List Warning)} (h : Performs p m) :
    Act.Answers OnlyNothing m := by
  cases h with
  | begins | closes | saves | restores | composes | sets => exact answers_change _
  | moves | lines | ellipse => exact answers_draw _
  | cubic | quadratic => exact Act.answers_bind fun _ => answers_draw _
  | curveRefused _ _ _ e => exact Act.answers_bind fun _ => Act.answers_throw e
  | paints _ ink => exact answers_paint ink
  | refused _ e => exact Act.answers_throw e

theorem onlyNothing_performAll {calls : List (Call α)} {s t : Sheet α} {w : List Warning}
    (h : Surface.performAll calls s = (w, none, t)) : OnlyNothing w := by
  induction calls generalizing s w with
  | nil =>
    cases h
    exact onlyNothing_nil
  | cons k rest ih =>
    rcases hk : (Surface.perform k : Act (Sheet α) _).run s with ⟨e | v, u⟩
    · rw [Canvas.performAll_cons_error hk] at h
      cases h
    · rw [Canvas.performAll_cons_ok hk, Prod.mk.injEq] at h
      obtain ⟨rfl, h⟩ := h
      intro x hx
      rcases List.mem_append.mp hx with hx | hx
      · exact answers_performs (performs_perform k) s v u hk x hx
      · exact ih (Prod.ext rfl h) x hx

end Sheet

/-- A refusal that the same calls lead to from another state. -/
def Refusal.Recurs {σ α : Type} [Surface σ α] (n : Refusal σ α) (start : σ)
    (calls : List (Call α)) : Prop :=
  ∃ after w u, calls = n.before ++ n.call :: after ∧
    Surface.performAll n.before start = (w, none, u) ∧
    (Surface.perform n.call : Act σ (List Warning)).run u = (.error n.fault, n.left)

namespace Refusal.Recurs

variable {σ τ α : Type} [Surface σ α] [Surface τ α] {n : Refusal σ α} {start : σ}
variable {calls : List (Call α)}

theorem append (h : n.Recurs start calls) (more : List (Call α)) :
    n.Recurs start (calls ++ more) := by
  obtain ⟨after, w, u, hcalls, hbefore, hk⟩ := h
  refine ⟨after ++ more, w, u, ?_, hbefore, hk⟩
  rw [hcalls, List.append_assoc, List.cons_append]

theorem carried {f : σ → τ} (hf : Surface.Carries (α := α) f) (h : n.Recurs start calls) :
    ({ n with left := f n.left } : Refusal τ α).Recurs (f start) calls := by
  obtain ⟨after, w, u, hcalls, hbefore, hk⟩ := h
  refine ⟨after, w, f u, hcalls, ?_, ?_⟩
  · rw [hf.performAll_eq, hbefore]
  · rw [hf.perform_eq, hk]

theorem performAll_eq (h : n.Recurs start calls) :
    ∃ w, Surface.performAll calls start = (w, some n.fault, n.left) := by
  obtain ⟨after, w, u, rfl, hbefore, hk⟩ := h
  exact ⟨w, Surface.performAll_of_refused hbefore hk⟩

end Refusal.Recurs

namespace Canvas

variable {α : Type} [Scalar α] [HasAxes α]

/-- A canvas on a watched sheet that has refused nothing, and one on a recording of its calls. -/
structure Echoes (g : Frame) (x : Canvas (Watched (Sheet α) α) α)
    (r : Canvas (Recording α) α) : Prop where
  canvas_eq : x = r.on x.surface
  answered_eq : x.surface.answered = r.surface.calls
  unrefused : x.surface.refusal = none
  replays : ∃ w, Surface.performAll r.surface.calls
    (Sheet.blank g.width g.height g.fileName) = (w, none, x.surface.surface)

variable {g : Frame} {x : Canvas (Watched (Sheet α) α) α} {r : Canvas (Recording α) α}

theorem echoes_fresh (g : Frame) (autoOpen : Bool) (unit : AngleUnit) :
    Echoes g (fresh (.fresh (Sheet.blank g.width g.height g.fileName)) autoOpen unit)
      (fresh .empty autoOpen unit : Canvas (Recording α) α) :=
  ⟨rfl, rfl, rfl, [], rfl⟩

theorem echoes_reset (h : Echoes g x r) :
    Echoes g (step .reset x).2 (step .reset r).2 ∧ (step .reset x).1 = (step .reset r).1 := by
  obtain ⟨w, hw⟩ := h.replays
  have hframe : Sheet.framed g x.surface.surface = x.surface.surface := by
    have hall := Sheet.framed_performAll (g := g)
      (s := Sheet.blank g.width g.height g.fileName) rfl r.surface.calls
    rwa [hw] at hall
  have hclear : (Surface.clear : Act (Watched (Sheet α) α) Unit).run x.surface =
      (.ok (), { x.surface with
        surface := Sheet.blank g.width g.height g.fileName, answered := [] }) := by
    rw [← Sheet.cleared_of_framed hframe]
    rfl
  have hr : (Surface.clear : Act (Recording α) Unit).run r.surface = (.ok (), .empty) := rfl
  rw [step_reset_ok hclear, step_reset_ok hr]
  refine ⟨⟨?_, rfl, h.unrefused, [], rfl⟩, rfl⟩
  rw [h.canvas_eq]
  rfl

theorem Echoes.of_answered (h : Echoes g x r) {β : Type} (p : Plan α β) {v : List Warning}
    {t : Watched (Sheet α) α} (hs : Surface.performAll p.calls x.surface = (v, none, t)) :
    Echoes g (p.on x.surface).2 (p.on r.surface).2 := by
  obtain ⟨w, hw⟩ := h.replays
  obtain ⟨hanswered, hrefusal⟩ := Watched.answered_of_none hs
  have hsheet := Watched.carries.performAll_eq p.calls x.surface
  rw [hs] at hsheet
  rw [Recording.on_recording, Plan.on_of_none hs]
  refine ⟨rfl, ?_, hrefusal.trans h.unrefused, w ++ v, ?_⟩
  · change t.answered = (r.surface.recordAll p.calls).calls
    rw [hanswered, h.answered_eq, Recording.calls_recordAll]
  · change Surface.performAll (r.surface.recordAll p.calls).calls _ = (_, _, t.surface)
    rw [Recording.calls_recordAll, Surface.performAll_append_of_none hw, hsheet]

theorem Echoes.of_refused (h : Echoes g x r) {β : Type} (p : Plan α β) {v : List Warning}
    {e : Fault} {t : Watched (Sheet α) α}
    (hs : Surface.performAll p.calls x.surface = (v, some e, t)) :
    ∃ n, (p.on x.surface).2.surface.refusal = some n ∧ (p.on x.surface).1 = .error n.fault ∧
      (p.on x.surface).2.surface.surface = n.left ∧
      n.Recurs (Sheet.blank g.width g.height g.fileName) (p.on r.surface).2.surface.calls := by
  obtain ⟨w, hw⟩ := h.replays
  obtain ⟨before, k, after, u, hcalls, hbefore, hk, hrefusal⟩ := Watched.refusal_of_some hs
  obtain ⟨left, hleft⟩ := Plan.on_of_some hs
  rw [h.unrefused, h.answered_eq] at hrefusal
  rw [Recording.on_recording, hleft]
  refine ⟨⟨r.surface.calls ++ before, k, e, t.surface⟩, hrefusal, rfl, rfl,
    after, w ++ v, u, ?_, ?_, hk⟩
  · change (r.surface.recordAll p.calls).calls = _
    rw [Recording.calls_recordAll, hcalls, List.append_assoc]
  · rw [Surface.performAll_append_of_none hw, hbefore]

/-- One operation on both: the canvases stay the same, or the sheet refuses a call. -/
theorem echoes_step (h : Echoes g x r) (op : Op α) :
    (Echoes g (step op x).2 (step op r).2 ∧ aside (step op x).1 = aside (step op r).1) ∨
      ∃ n, (step op x).2.surface.refusal = some n ∧ (step op x).1 = .error n.fault ∧
        (step op x).2.surface.surface = n.left ∧
        n.Recurs (Sheet.blank g.width g.height g.fileName) (step op r).2.surface.calls := by
  by_cases hop : op = .reset
  · subst hop
    exact .inl ⟨(echoes_reset h).1, congrArg aside (echoes_reset h).2⟩
  obtain ⟨p, haside, hp⟩ := planned_act hop (r.on ())
  have hr : step op r = p.on r.surface := hp _ r.surface
  have hx : step op x = p.on x.surface := by
    rw [h.canvas_eq]
    exact hp _ x.surface
  rw [hr, hx]
  rcases hs : Surface.performAll p.calls x.surface with ⟨v, e | e, t⟩
  · have hsheet := Watched.carries.performAll_eq p.calls x.surface
    rw [hs] at hsheet
    refine .inl ⟨h.of_answered p hs, ?_⟩
    rw [Recording.on_recording, Plan.on_of_none hs]
    exact haside v (Sheet.onlyNothing_performAll hsheet)
  · exact .inr (h.of_refused p hs)

theorem echoes_run (h : Echoes g x r) (ops : List (Op α))
    (hn : (run ops x).2.surface.refusal = none) :
    Echoes g (run ops x).2 (run ops r).2 ∧
      (run ops x).1.map aside = (run ops r).1.map aside := by
  induction ops generalizing x r with
  | nil => exact ⟨h, rfl⟩
  | cons op rest ih =>
    rcases echoes_step h op with ⟨hstep, houtcome⟩ | ⟨n, hrefused, -⟩
    · obtain ⟨hrun, houtcomes⟩ := ih hstep hn
      refine ⟨hrun, ?_⟩
      rw [outcomes_cons, outcomes_cons, List.map_cons, List.map_cons, houtcome, houtcomes]
    · rw [run_cons, Watched.refusal_run rest hrefused] at hn
      cases hn

theorem echoes_refused (h : Echoes g x r) {op : Op α} {n : Refusal (Sheet α) α}
    (hn : (step op x).2.surface.refusal = some n) :
    (step op x).1 = .error n.fault ∧ (step op x).2.surface.surface = n.left ∧
      n.Recurs (Sheet.blank g.width g.height g.fileName) (step op r).2.surface.calls := by
  rcases echoes_step h op with ⟨hstep, -⟩ | ⟨m, hm, hrefused⟩
  · rw [hstep.unrefused] at hn
    cases hn
  · rw [hn] at hm
    cases hm
    exact hrefused

theorem Echoes.replay_eq (h : Echoes g x r) (other : Frame) :
    ∃ w, r.surface.replay (Sheet.blank other.width other.height other.fileName) =
      (w, none, x.surface.surface.framed other) := by
  obtain ⟨w, hw⟩ := h.replays
  have hagain := Sheet.carries_framed.performAll_eq (f := Sheet.framed other) r.surface.calls
    (Sheet.blank g.width g.height g.fileName)
  rw [hw] at hagain
  exact ⟨w, hagain⟩

/-- The same operations on a blank sheet, on that sheet when it is watched, and on an empty
recording that is replayed on another blank sheet afterwards. Watching changes nothing. If no call
is refused, the canvases come to the same and the replay to the same drawing. If the first refusal
is met in an operation after which nothing is reset, the replay meets it at the same call, with the
same drawing so far. -/
theorem replay_run (width height fileName : String) (autoOpen : Bool) (unit : AngleUnit)
    (other : Frame) (ops : List (Op α)) :
    let blank : Sheet α := .blank width height fileName
    let again : Sheet α := .blank other.width other.height other.fileName
    let sheet : Canvas (Sheet α) α := fresh blank autoOpen unit
    let watched : Canvas (Watched (Sheet α) α) α := fresh (.fresh blank) autoOpen unit
    let recording : Canvas (Recording α) α := fresh .empty autoOpen unit
    (run ops sheet =
      ((run ops watched).1, (run ops watched).2.on (run ops watched).2.surface.surface)) ∧
    ((run ops watched).2.surface.refusal = none →
      (run ops sheet).2 = (run ops recording).2.on (run ops sheet).2.surface ∧
      (run ops sheet).1.map aside = (run ops recording).1.map aside ∧
      ∃ w, (run ops recording).2.surface.replay again =
        (w, none, (run ops sheet).2.surface.framed other)) ∧
    ∀ first op rest n, ops = first ++ op :: rest → (∀ o ∈ rest, o ≠ .reset) →
      (run first watched).2.surface.refusal = none →
      (run (first ++ [op]) watched).2.surface.refusal = some n →
      (step op (run first sheet).2).1 = .error n.fault ∧
      (step op (run first sheet).2).2.surface = n.left ∧
      ({ n with left := n.left.framed other } : Refusal (Sheet α) α).Recurs again
        (run ops recording).2.surface.calls ∧
      ∃ w, (run ops recording).2.surface.replay again =
        (w, some n.fault, n.left.framed other) := by
  intro blank again sheet watched recording
  have hfresh : Echoes ⟨width, height, fileName⟩ watched recording :=
    echoes_fresh ⟨width, height, fileName⟩ autoOpen unit
  have hwatched (ops : List (Op α)) := Watched.run_watched ops blank autoOpen unit
  refine ⟨hwatched ops, fun hn => ?_, ?_⟩
  · obtain ⟨hrun, houtcomes⟩ := echoes_run hfresh ops hn
    rw [hwatched ops]
    exact ⟨congrArg (fun c => c.on (run ops watched).2.surface.surface) hrun.canvas_eq,
      houtcomes, hrun.replay_eq other⟩
  · rintro first op rest n rfl hrest hfirst hn
    obtain ⟨hbefore, -⟩ := echoes_run hfresh first hfirst
    rw [run_append] at hn
    obtain ⟨houtcome, hleft, hrecurs⟩ := echoes_refused hbefore hn
    obtain ⟨more, hmore⟩ := Recording.exists_calls_run hrest (step op (run first recording).2).2
    have hagain := (hrecurs.append more).carried (Sheet.carries_framed (g := other))
    rw [← hmore, ← run_cons, ← run_append] at hagain
    have hstep := Watched.carries.step_eq op (run first watched).2
    rw [hwatched first, hstep]
    exact ⟨houtcome, hleft, hagain, hagain.performAll_eq⟩

theorem replay_run_refused :
    let blank : Sheet Float := .blank "600" "600" "drawing.svg"
    let watched : Canvas (Watched (Sheet Float) Float) Float := fresh (.fresh blank) true .radians
    let recording : Canvas (Recording Float) Float := fresh .empty true .radians
    let move : Op Float := .command ⟨.move, false⟩ (Argument.ofNumbers [3, 4])
    let line : Op Float :=
      .command ⟨.line, false⟩ [.number 5, .number 5, .number Scalar.infinite, .number 0]
    ((run [.restore, move, .reset, .fill []] watched).2.surface.refusal = none ∧
      ∃ w, (run [.restore, move, .reset, .fill []] recording).2.surface.replay blank =
        (w, none, (run [.restore, move, .reset, .fill []]
          (fresh blank true .radians)).2.surface.framed ⟨"600", "600", "drawing.svg"⟩)) ∧
    ∃ n, (run ([move] ++ [line]) watched).2.surface.refusal = some n ∧
      ∃ w, (run [move, line, .restore] recording).2.surface.replay blank =
        (w, some n.fault, n.left.framed ⟨"600", "600", "drawing.svg"⟩) := by
  have hall (ops : List (Op Float)) :=
    replay_run "600" "600" "drawing.svg" true .radians ⟨"600", "600", "drawing.svg"⟩ ops
  have hsome {o : Option (Refusal (Sheet Float) Float)} {P : Refusal (Sheet Float) Float → Prop}
      (h : o.isSome = true) (hP : ∀ n, o = some n → P n) : ∃ n, o = some n ∧ P n := by
    obtain ⟨n, hn⟩ := Option.isSome_iff_exists.mp h
    exact ⟨n, hn, hP n hn⟩
  dsimp only
  refine ⟨?_, hsome (by decide +kernel) fun n hn => ?_⟩
  · obtain ⟨-, hanswered, -⟩ := hall [.restore,
      .command ⟨.move, false⟩ (Argument.ofNumbers [3, 4]), .reset, .fill []]
    exact ⟨by decide +kernel, (hanswered (by decide +kernel)).2.2⟩
  · exact ((hall _).2.2 _ _ [.restore] n rfl (by simp) (by decide +kernel) hn).2.2.2

theorem not_refused_after_reset :
    let blank : Sheet Float := .default "drawing.svg"
    let watched : Canvas (Watched (Sheet Float) Float) Float := fresh (.fresh blank) true .radians
    let recording : Canvas (Recording Float) Float := fresh .empty true .radians
    let move : Op Float := .command ⟨.move, false⟩ [.number Scalar.infinite, .number 0]
    (run [move] watched).1 = [.error (.notWritable .positive)] ∧
      (run [move] watched).2.surface.refusal.isSome = true ∧
      ((run [move, .reset] recording).2.surface.replay blank).2.1 = none := by
  -- A reset forgets the call that the sheet has refused, so the replay meets no refusal.
  decide +kernel

end Canvas

end Linework
