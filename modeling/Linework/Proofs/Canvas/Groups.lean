import Linework.Proofs.Canvas.PathFaults
import Linework.Proofs.Canvas.Rows

/-!
# Commands group by group

A command with several groups can be split after the first: what it draws is what the first group
draws by itself and what the other groups draw from there. For lines and curves this takes
arguments that are numbers, as all of them are read before the first segment is drawn. Arcs are
read one by one, and a move is followed by lines.
-/

set_option autoImplicit false

namespace Linework

open Outline (Command Verb Element)

section Arguments

variable {α : Type} [Scalar α] {as bs : List (Argument α)}

theorem Argument.reals_append (as bs : List (Argument α)) :
    reals (as ++ bs) = do
      let xs ← reals as
      let ys ← reals bs
      return xs ++ ys := by
  induction as with
  | nil => cases h : reals bs <;> exact h
  | cons a as ih =>
    rw [List.cons_append, reals, ih, reals]
    cases a.real with
    | error e => rfl
    | ok x =>
      cases reals as with
      | error e => rfl
      | ok xs => cases reals bs <;> rfl

theorem Argument.reals_append_ok {xs : List α} (h : reals (as ++ bs) = .ok xs) :
    ∃ ys zs, reals as = .ok ys ∧ reals bs = .ok zs ∧ xs = ys ++ zs := by
  rw [reals_append] at h
  obtain ⟨ys, hys, h⟩ := exists_of_bind_ok h
  obtain ⟨zs, hzs, h⟩ := exists_of_bind_ok h
  exact ⟨ys, zs, hys, hzs, (Except.ok.inj h).symm⟩

theorem Argument.reals_pair (a b : Argument α) :
    reals [a, b] = (point ⟨a, b⟩).map fun z => [z.x, z.y] := by
  rw [reals, reals, reals, point]
  cases a.real with
  | error e => rfl
  | ok x => cases b.real <;> rfl

theorem Argument.readable_of_reals {xs : List α} (h : reals as = .ok xs) : readable as = xs := by
  induction as generalizing xs with
  | nil => exact Except.ok.inj h
  | cons a as ih =>
    obtain ⟨x, ys, ha, hr, rfl⟩ := reals_cons_ok h
    rw [readable_cons_ok ha, ih hr]

end Arguments

theorem Pen.followAll_cons {α : Type} (p : Pen α) (g : Segment α) (gs : List (Segment α)) :
    p.followAll (g :: gs) = (p.follow g).followAll gs := by
  rcases List.eq_nil_or_concat' gs with rfl | ⟨init, h, rfl⟩
  · rfl
  · rw [← List.cons_append, followAll_concat, followAll_concat]
    cases g <;> cases h <;> rfl

namespace Canvas

section Rows

variable {α : Type} {k : Command} {c : Canvas (Recording α) α}

def after (c : Canvas (Recording α) α) (gs : List (Segment α)) : Canvas (Recording α) α :=
  { c with surface := c.surface.recordAll (gs.map Segment.call), pen := c.pen.followAll gs }

theorem run_drawSegments_recording (gs : List (Segment α)) (c : Canvas (Recording α) α) :
    (drawSegments gs).run c = (.ok (), c.after gs) :=
  run_drawThen_recording _ _ c

theorem after_cons (g : Segment α) (gs : List (Segment α)) (c : Canvas (Recording α) α) :
    c.after (g :: gs) = (c.after [g]).after gs := by
  simp only [after, Pen.followAll_cons]
  simp [Recording.recordAll, Pen.followAll]

variable [Scalar α]

theorem run_drawNumbers_of_open (ho : c.pen.isOpen) (xs : List α) :
    (drawNumbers k xs).run c = (.ok (), c.after (c.pen.row k xs)) := by
  have hopen : (openFor k xs).run c = (.ok (), c) := by
    rw [openFor.eq_def]
    split
    · split
      · exact run_ensureOpenAt_of_open ho
      · exact Act.run_pure () c
    · exact Act.run_pure () c
  rw [drawNumbers, Act.run_bind_ok hopen, Act.run_bind_ok (Act.run_get c),
    run_drawSegments_recording]

/-- The first group is drawn by itself, and the others like the groups of another command. -/
theorem run_drawNumbers_append (hk : k.verb.drawsSegments) {ys : List α}
    (hys : ys.length = k.groupSize) (zs : List α) (c : Canvas (Recording α) α) :
    (drawNumbers k (ys ++ zs)).run c =
      (drawNumbers k ys >>= fun _ => lookFor k >>= fun _ => drawNumbers k zs).run c := by
  rw [drawNumbers, openFor_append hys, drawNumbers, bind_assoc]
  refine Act.run_bind_congr fun _ t _ => ?_
  obtain ⟨g, hg, hrow⟩ := t.pen.exists_row_append hk hys
  have hfirst : t.pen.row k ys = [g] := by simpa [Pen.row_nil] using hrow []
  have hlook : (lookFor k).run (t.after [g]) = (.ok (), t.after [g]) :=
    run_lookFor_of_follow hg rfl
  have hopen : (t.after [g]).pen.isOpen := Pen.isOpen_iff.mpr ⟨_, t.pen.follow_current g⟩
  rw [bind_assoc, Act.run_bind_ok (Act.run_get t), Act.run_bind_ok (Act.run_get t), hrow, hfirst,
    run_drawSegments_recording, Act.run_bind_ok (run_drawSegments_recording [g] t),
    Act.run_bind_ok hlook, run_drawNumbers_of_open hopen, after_cons]
  rfl

theorem run_carryOut_append (hk : k.verb.drawsSegments) {as bs : List (Argument α)}
    (has : as.length = k.groupSize) {xs : List α} (h : Argument.reals (as ++ bs) = .ok xs)
    (c : Canvas (Recording α) α) :
    (carryOut k (as ++ bs)).run c = (carryOut k as >>= fun _ => carryOut k bs).run c := by
  obtain ⟨ys, zs, hys, hzs, rfl⟩ := Argument.reals_append_ok h
  have hlength : ys.length = k.groupSize := by rw [Argument.length_reals hys, has]
  have hbs : ∀ t : Canvas (Recording α) α, (carryOut k bs).run t = _ := run_carryOut_of_reals hk hzs
  rw [run_carryOut_of_reals hk h, Act.run_bind, Act.run_bind, run_carryOut_of_reals hk hys,
    Act.run_bind]
  rcases (lookFor k).run c with ⟨e | _, t⟩
  · rfl
  · simp only [hbs]
    rw [run_drawNumbers_append hk hlength, Act.run_bind]

end Rows

theorem accepts_flatten {β : Type} {k : Command} (hk : k.verb ≠ .close) {g : List β}
    {gs : List (List β)} (h : ∀ b ∈ g :: gs, b.length = k.groupSize) :
    accepts k (g :: gs).flatten.length := by
  refine accepts_of_mul hk (Nat.succ_pos gs.length) ?_
  rw [List.length_flatten, List.map_congr_left h, List.map_const', List.sum_replicate_nat,
    List.length_cons]

section Groups

variable {σ α : Type} [Scalar α] [Surface σ α] {relative : Bool}

theorem carryOut_arc_append {as : List (Argument α)} (has : as.length = 7)
    (bs : List (Argument α)) :
    (carryOut ⟨.arc, relative⟩ (as ++ bs) : Act (Canvas σ α) Unit) =
      (carryOut ⟨.arc, relative⟩ as >>= fun _ => carryOut ⟨.arc, relative⟩ bs) := by
  -- An arc ends with the pen moved, so that it makes no difference what is left for later.
  match as, has with
  | [_, _, _, _, _, _, _], _ =>
    simp only [carryOut, List.cons_append, List.nil_append, ArcTo.group, arcs_eq_forEach,
      Act.forEach, bind_assoc, pure_bind]

theorem carryOut_move_append {as bs : List (Argument α)} (has : as.length = 2) (hbs : bs ≠ []) :
    (carryOut ⟨.move, relative⟩ (as ++ bs) : Act (Canvas σ α) Unit) =
      (carryOut ⟨.move, relative⟩ as >>= fun _ => carryOut ⟨.line, relative⟩ bs) := by
  match as, has with
  | [_, _], _ =>
    have hempty : bs.isEmpty = false := by simpa using hbs
    simp only [carryOut, List.cons_append, List.nil_append, move, hempty, List.isEmpty_nil,
      bind_assoc, pure_bind, if_true, Bool.false_eq_true, if_false]

end Groups

section Steps

variable {σ α : Type} [Scalar α] [Surface σ α] {k : Command}

theorem follow_cons_congr {op : Op α} {ops ops' : List (Op α)} {c : Canvas σ α}
    (h : ∀ w t, step op c = (.ok w, t) → follow ops t = follow ops' t) :
    follow (op :: ops) c = follow (op :: ops') c := by
  rw [follow, follow]
  rcases hs : step op c with ⟨e | w, t⟩
  · rfl
  · simp only [h w t hs]

theorem follow_cons_of_ok {op : Op α} {c t : Canvas σ α} (h : step op c = (.ok [], t))
    (ops : List (Op α)) : follow (op :: ops) c = follow ops t := by
  rw [follow, h]
  dsimp only
  rcases follow ops t with ⟨e | w, u⟩ <;> rfl

theorem follow_cons_of_error {op : Op α} {c t : Canvas σ α} {e : Fault}
    (h : step op c = (.error e, t)) (ops : List (Op α)) : follow (op :: ops) c = (.error e, t) := by
  rw [follow, h]

theorem follow_pair_of_eq {first op : Op α} {ops : List (Op α)} {c t : Canvas σ α}
    {w : List Warning} (hfirst : step first c = (.ok w, t)) (h : step op t = follow ops t) :
    follow [first, op] c = follow (first :: ops) c := by
  refine follow_cons_congr fun w' t' ht' => ?_
  rw [hfirst] at ht'
  cases ht'
  rw [follow_singleton, h]

theorem step_command_append {l : Command} {as bs : List (Argument α)} {c : Canvas σ α}
    (hab : accepts k (as ++ bs).length) (ha : accepts k as.length) (hb : accepts l bs.length)
    (h : (carryOut k (as ++ bs)).run c = (carryOut k as >>= fun _ => carryOut l bs).run c) :
    step (.command k (as ++ bs)) c = follow [.command k as, .command l bs] c := by
  rw [step_command hab, h, Act.run_bind]
  rcases hrun : (carryOut k as).run c with ⟨e | _, t⟩
  · have hfirst : step (.command k as) c = (.error e, t) := by rw [step_command ha, hrun]; rfl
    rw [follow_cons_of_error hfirst]
    rfl
  · have hfirst : step (.command k as) c = (.ok [], t) := by rw [step_command ha, hrun]; rfl
    rw [follow_cons_of_ok hfirst, follow_singleton, step_command hb]

/-- If a command may be split after any group, it may be carried out group by group. -/
theorem step_flatten_of_append {P : List (Argument α) → Prop} (hk : k.verb ≠ .close)
    (hP : ∀ as bs, P (as ++ bs) → P bs)
    (happend : ∀ as bs (c : Canvas σ α), as.length = k.groupSize → P (as ++ bs) →
      (carryOut k (as ++ bs)).run c = (carryOut k as >>= fun _ => carryOut k bs).run c)
    {g : List (Argument α)} {gs : List (List (Argument α))}
    (h : ∀ b ∈ g :: gs, b.length = k.groupSize) (hp : P (g :: gs).flatten) (c : Canvas σ α) :
    step (.command k (g :: gs).flatten) c = follow ((g :: gs).map (.command k)) c := by
  induction gs generalizing g c with
  | nil =>
    rw [List.flatten_singleton]
    exact (follow_singleton _ c).symm
  | cons b bs ih =>
    have hrest : ∀ d ∈ b :: bs, d.length = k.groupSize := fun d hd =>
      h d (List.mem_cons_of_mem g hd)
    have hg := h g List.mem_cons_self
    have hall := accepts_flatten hk h
    rw [List.flatten_cons] at hall hp ⊢
    rw [step_command_append hall (accepts_group hk hg) (accepts_flatten hk hrest)
      (happend _ _ c hg hp), List.map_cons]
    refine follow_cons_congr fun w t _ => ?_
    rw [follow_singleton]
    exact ih hrest (hP _ _ hp) t

theorem step_arcs {relative : Bool} {g : List (Argument α)} {gs : List (List (Argument α))}
    (h : ∀ b ∈ g :: gs, b.length = 7) (c : Canvas σ α) :
    step (.command ⟨.arc, relative⟩ (g :: gs).flatten) c =
      follow ((g :: gs).map (.command ⟨.arc, relative⟩)) c := by
  refine step_flatten_of_append (P := fun _ => True) Verb.noConfusion (fun _ _ _ => trivial) ?_ h
    trivial c
  intro as bs c has _
  rw [carryOut_arc_append has]

theorem step_move_append {relative : Bool} {as bs : List (Argument α)} (has : as.length = 2)
    (hbs : accepts ⟨.line, relative⟩ bs.length) (c : Canvas σ α) :
    step (.command ⟨.move, relative⟩ (as ++ bs)) c =
      follow [.command ⟨.move, relative⟩ as, .command ⟨.line, relative⟩ bs] c := by
  have hne : bs ≠ [] := by
    rintro rfl
    cases hbs
  have hall : accepts ⟨.move, relative⟩ (as ++ bs).length := by
    have hmod : bs.length % 2 = 0 := groups_of_accepts Verb.noConfusion hbs
    refine accepts_of_mul Verb.noConfusion (Nat.succ_pos (bs.length / 2)) ?_
    change _ = _ * 2
    rw [List.length_append, has]
    omega
  refine step_command_append hall (accepts_group Verb.noConfusion has) hbs ?_
  rw [carryOut_move_append has hne]

end Steps

section Recordings

variable {α : Type} [Scalar α] {k : Command} {g : List (Argument α)} {gs : List (List (Argument α))}

theorem step_segments (hk : k.verb.drawsSegments) (h : ∀ b ∈ g :: gs, b.length = k.groupSize)
    {xs : List α} (hr : Argument.reals (g :: gs).flatten = .ok xs) (c : Canvas (Recording α) α) :
    step (.command k (g :: gs).flatten) c = follow ((g :: gs).map (.command k)) c := by
  refine step_flatten_of_append (P := fun as => ∃ xs, Argument.reals as = .ok xs) ?_ ?_ ?_ h
    ⟨xs, hr⟩ c
  · exact Verb.ne_close_of_drawsSegments hk
  · rintro as bs ⟨xs, hxs⟩
    obtain ⟨_, zs, -, hzs, -⟩ := Argument.reals_append_ok hxs
    exact ⟨zs, hzs⟩
  · rintro as bs c has ⟨xs, hxs⟩
    exact run_carryOut_append hk has hxs c

end Recordings

end Canvas

end Linework
