import Linework.Proofs.Canvas.Groups

/-!
# Commands with repeated groups

One command with several groups of arguments draws what successive commands with one group each
draw, and a path draws the same whether repeated letters are left out or not. The commands that
read ahead see an argument that is no number before they draw the groups in front of it. A walk
along an axis comes to it in time, but then leaves the pen behind.
-/

set_option autoImplicit false

namespace Linework

open Outline (Command Verb Element)

def Outline.Command.next (k : Command) : Command :=
  if k.verb = .move then ⟨.line, k.relative⟩ else k

def Outline.Verb.lead : Verb → Nat
  | .move => 1
  | _ => 0

def Op.oneByOne {α : Type} (k : Command) : List (List (Argument α)) → List (Op α)
  | [] => []
  | g :: gs => .command k g :: gs.map (.command k.next)

/-- An element of a path may stand for one element for each of its groups. -/
inductive Outline.Element.SpelledOut {α : Type} : Element α → List (Element α) → Prop
  | kept (e : Element α) : SpelledOut e [e]
  | groups {k : Command} (hk : k.verb ≠ .close) {g : List α} {gs : List (List α)}
      (h : ∀ b ∈ g :: gs, b.length = k.groupSize) :
      SpelledOut ⟨k, (g :: gs).flatten⟩ (⟨k, g⟩ :: gs.map fun b => ⟨k.next, b⟩)

instance {α : Type} [DecidableEq α] : DecidableEq (Element α) := fun a b =>
  decidable_of_iff (a.command = b.command ∧ a.numbers = b.numbers) (by
    cases a
    cases b
    simp)

theorem Op.oneByOne_of_ne_move {α : Type} {k : Command} (hk : k.verb ≠ .move)
    (gs : List (List (Argument α))) : oneByOne k gs = gs.map (.command k) := by
  cases gs with
  | nil => rfl
  | cons g gs => rw [oneByOne, Command.next, if_neg hk, List.map_cons]

namespace Canvas

section Axes

variable {α : Type} [Scalar α] {k : Command} {c : Canvas (Recording α) α} {z : Point α}

def axisStep (k : Command) : Point α → α → Point α :=
  if k.verb = .horizontal then horizontalStep k.relative else verticalStep k.relative

theorem carryOut_axis (hk : k.verb = .horizontal ∨ k.verb = .vertical) (as : List (Argument α)) :
    (carryOut k as : Act (Canvas (Recording α) α) Unit) = axisLine (axisStep k) as := by
  rw [carryOut, axisStep]
  rcases hk with hv | hv <;> rw [hv] <;> rfl

theorem run_drawAlong (step : Point α → α → Point α) (z : Point α) (as : List (Argument α))
    (c : Canvas (Recording α) α) :
    ((drawAlong step z as).run c).1 = (Argument.reals as).map (fun _ => ()) ∧
      ((drawAlong step z as).run c).2.surface =
        c.surface.recordAll ((walk step z (Argument.readable as)).map .lineTo) := by
  rcases hr : Argument.reals as with e | xs
  · rw [drawAlong_of_error step z hr,
      Act.run_bind_ok (run_drawCalls_ok (Recording.performAll_eq _ c.surface)), Act.run_throw]
    exact ⟨rfl, rfl⟩
  · rw [drawAlong_of_reals step z hr, drawLines_eq_segments, run_drawSegments_recording,
      Argument.readable_of_reals hr, after, List.map_map]
    exact ⟨rfl, rfl⟩

theorem step_axis (hk : k.verb = .horizontal ∨ k.verb = .vertical) (hz : c.pen.current = some z)
    {as : List (Argument α)} (ha : accepts k as.length) :
    (step (.command k as) c).1 = (Argument.reals as).map (fun _ => []) ∧
      (step (.command k as) c).2.surface =
        c.surface.recordAll ((walk (axisStep k) z (Argument.readable as)).map .lineTo) := by
  obtain ⟨houtcome, hsurface⟩ := run_drawAlong (axisStep k) z as c
  rw [step_command ha, carryOut_axis hk, axisLine,
    Act.run_bind_ok (run_requireCurrent_of_some hz), houtcome]
  refine ⟨?_, hsurface⟩
  cases Argument.reals as <;> rfl

theorem step_axis_none (hk : k.verb = .horizontal ∨ k.verb = .vertical)
    (hz : c.pen.current = none) {as : List (Argument α)} (ha : accepts k as.length) :
    step (.command k as) c = (.error .noCurrentPoint, c) := by
  rw [step_command ha, carryOut_axis hk, axisLine,
    Act.run_bind_error (run_requireCurrent_of_none hz)]
  rfl

theorem step_axis_ok (hk : k.verb = .horizontal ∨ k.verb = .vertical)
    (hz : c.pen.current = some z) {a : Argument α} {x : α} (ha : a.real = .ok x) :
    step (.command k [a]) c = (.ok [], c.after [.line (axisStep k z x)]) := by
  have hacc : accepts k [a].length := accepts_axis hk Nat.one_ne_zero
  rw [step_command hacc, carryOut_axis hk, axisLine,
    Act.run_bind_ok (run_requireCurrent_of_some hz), drawAlong, ha, Act.ofExcept_ok, pure_bind,
    drawLines_eq_segments, run_drawSegments_recording]
  rfl

theorem step_axis_error (hk : k.verb = .horizontal ∨ k.verb = .vertical)
    (hz : c.pen.current = some z) {a : Argument α} {e : Fault} (ha : a.real = .error e) :
    step (.command k [a]) c = (.error e, c) := by
  have hacc : accepts k [a].length := accepts_axis hk Nat.one_ne_zero
  rw [step_command hacc, carryOut_axis hk, axisLine,
    Act.run_bind_ok (run_requireCurrent_of_some hz), drawAlong, ha, Act.ofExcept_error,
    Act.throw_bind]
  rfl

theorem follow_axis (hk : k.verb = .horizontal ∨ k.verb = .vertical) (hz : c.pen.current = some z)
    (as : List (Argument α)) :
    let single := follow (as.map fun a => .command k [a]) c
    single.1 = (Argument.reals as).map (fun _ => []) ∧
      single.2.surface =
        c.surface.recordAll ((walk (axisStep k) z (Argument.readable as)).map .lineTo) := by
  induction as generalizing c z with
  | nil => exact ⟨rfl, rfl⟩
  | cons a as ih =>
    rcases ha : a.real with e | x
    · rw [List.map_cons, follow_cons_of_error (step_axis_error hk hz ha),
        Argument.readable_cons_error ha, Argument.reals, ha]
      exact ⟨rfl, rfl⟩
    · obtain ⟨houtcome, hsurface⟩ :=
        ih (c := c.after [.line (axisStep k z x)]) (z := axisStep k z x) rfl
      rw [List.map_cons, follow_cons_of_ok (step_axis_ok hk hz ha), Argument.readable_cons_ok ha,
        Argument.reals, ha]
      refine ⟨houtcome.trans ?_, hsurface.trans ?_⟩
      · cases Argument.reals as <;> rfl
      · simp [after, walk, Recording.recordAll, Segment.call]

end Axes

section Ahead

variable {α : Type} [Scalar α] {k : Command} {c : Canvas (Recording α) α} {as : List (Argument α)}

theorem step_of_missing (hr : k.verb.readsAhead) (hk : k.verb.drawsSegments)
    (ha : accepts k as.length) {e : Fault} (h : (lookFor k).run c = (.error e, c)) :
    step (.command k as) c = (.error e, c) := by
  rw [step_command ha, run_carryOut hr hk, Act.run_bind_error h]
  rfl

theorem step_of_unread (hr : k.verb.readsAhead) (hk : k.verb.drawsSegments)
    (ha : accepts k as.length) (h : (lookFor k).run c = (.ok (), c)) {e : Fault}
    (he : Argument.reals as = .error e) : step (.command k as) c = (.error .wrongType, c) := by
  rw [step_command ha, run_carryOut hr hk, Act.run_bind_ok h, he,
    Argument.reals_error he]
  rfl

variable {g : List (Argument α)} {gs : List (List (Argument α))}

/-- Where an argument is no number, a line or curve command differs from successive ones only in
that it draws nothing, although its first group could be read. -/
theorem step_segments_of_error (hr : k.verb.readsAhead) (hk : k.verb.drawsSegments)
    (h : ∀ b ∈ g :: gs, b.length = k.groupSize) {e : Fault}
    (he : Argument.reals (g :: gs).flatten = .error e) (c : Canvas (Recording α) α) :
    step (.command k (g :: gs).flatten) c = follow ((g :: gs).map (.command k)) c ∨
      (∃ xs, Argument.reals g = .ok xs) ∧
        step (.command k (g :: gs).flatten) c = (.error .wrongType, c) := by
  have hclose := Verb.ne_close_of_drawsSegments hk
  have hall := accepts_flatten hclose h
  have hfirst := accepts_group hclose (h g List.mem_cons_self)
  obtain ⟨f | _, hlook⟩ := lookFor_reads k c
  · left
    rw [step_of_missing hr hk hall hlook, List.map_cons,
      follow_cons_of_error (step_of_missing hr hk hfirst hlook)]
  rcases hg : Argument.reals g with f | xs
  · left
    rw [step_of_unread hr hk hall hlook he, List.map_cons,
      follow_cons_of_error (step_of_unread hr hk hfirst hlook hg)]
  · exact .inr ⟨⟨xs, rfl⟩, step_of_unread hr hk hall hlook he⟩

theorem step_move_of_unread {relative : Bool} {g : List (Argument α)} (hg : g.length = 2)
    {e : Fault} (he : Argument.reals g = .error e) (c : Canvas (Recording α) α) :
    step (.command ⟨.move, relative⟩ g) c = (.error .wrongType, c) := by
  match g, hg with
  | [a, b], hg =>
    have hacc : accepts ⟨.move, relative⟩ [a, b].length := accepts_group (by simp) hg
    obtain rfl := Argument.reals_error he
    rw [Argument.reals_pair] at he
    rw [step_command hacc, carryOut, move]
    rcases hp : Argument.point ⟨a, b⟩ with f | z <;> rw [hp] at he <;> cases he
    rfl

theorem step_move_of_error {relative : Bool} (h : ∀ b ∈ g :: gs, b.length = 2) {e : Fault}
    (he : Argument.reals (g :: gs).flatten = .error e) (c : Canvas (Recording α) α) :
    step (.command ⟨.move, relative⟩ (g :: gs).flatten) c =
        follow (Op.oneByOne ⟨.move, relative⟩ (g :: gs)) c ∨
      (∃ xs, Argument.reals ((g :: gs).take 2).flatten = .ok xs) ∧
        step (.command ⟨.move, relative⟩ (g :: gs).flatten) c =
          (.error .wrongType, (follow [.command ⟨.move, relative⟩ g] c).2) := by
  have hfirst := h g List.mem_cons_self
  cases gs with
  | nil =>
    left
    rw [List.flatten_singleton]
    exact (follow_singleton _ c).symm
  | cons b bs =>
    have hrest : ∀ d ∈ b :: bs, d.length = 2 := fun d hd => h d (List.mem_cons_of_mem g hd)
    have hacc := accepts_flatten (k := ⟨.line, relative⟩) (by simp) hrest
    rw [List.flatten_cons, step_move_append hfirst hacc]
    rcases hs : step (.command ⟨.move, relative⟩ g) c with ⟨f | w, t⟩
    · left
      rw [follow_cons_of_error hs, Op.oneByOne, follow_cons_of_error hs]
    have hlines (hline : step (.command ⟨.line, relative⟩ (b :: bs).flatten) t =
        follow ((b :: bs).map (.command ⟨.line, relative⟩)) t) :
        follow [.command ⟨.move, relative⟩ g, .command ⟨.line, relative⟩ (b :: bs).flatten] c =
          follow (Op.oneByOne ⟨.move, relative⟩ (g :: b :: bs)) c :=
      follow_pair_of_eq hs hline
    rcases hr : Argument.reals (b :: bs).flatten with f | xs
    · rcases step_segments_of_error (k := ⟨.line, relative⟩) rfl rfl hrest hr t with
        hline | ⟨⟨ys, hys⟩, hline⟩
      · exact .inl (hlines hline)
      · right
        rcases hg : Argument.reals g with f | zs
        · rw [step_move_of_unread hfirst hg] at hs
          cases hs
        refine ⟨⟨zs ++ ys, ?_⟩, ?_⟩
        · change Argument.reals (g ++ (b ++ [])) = _
          rw [List.append_nil, Argument.reals_append, hg, hys]
          rfl
        · rw [follow, hs]
          dsimp only
          rw [follow_singleton, hline, follow_singleton, hs]
    · exact .inl (hlines (step_segments rfl hrest hr t))

end Ahead

section Repeats

variable {α : Type} [Scalar α] {k : Command} {g : List (Argument α)}
  {gs : List (List (Argument α))}

structure Concur (r r' : Outcome × Canvas (Recording α) α) : Prop where
  outcome : r.1 = r'.1
  surface : r.2.surface = r'.2.surface
  canvas : ∀ w, r.1 = .ok w → r.2 = r'.2

omit [Scalar α] in
theorem Concur.of_eq {r r' : Outcome × Canvas (Recording α) α} (h : r = r') : Concur r r' :=
  ⟨congrArg Prod.fst h, congrArg (fun x => x.2.surface) h, fun _ _ => congrArg Prod.snd h⟩

theorem flatten_singletons {β : Type} {gs : List (List β)} (h : ∀ b ∈ gs, b.length = 1) :
    gs.flatten.map (fun b => [b]) = gs := by
  induction gs with
  | nil => rfl
  | cons g gs ih =>
    obtain ⟨hg, hrest⟩ := List.forall_mem_cons.mp h
    obtain ⟨b, rfl⟩ := List.length_eq_one_iff.mp hg
    rw [List.flatten_cons, List.map_append, ih hrest]
    rfl

theorem step_oneByOne (hk : k.verb ≠ .close) (h : ∀ b ∈ g :: gs, b.length = k.groupSize)
    {xs : List α} (hr : Argument.reals (g :: gs).flatten = .ok xs) (c : Canvas (Recording α) α) :
    step (.command k (g :: gs).flatten) c = follow (Op.oneByOne k (g :: gs)) c := by
  have hsegments (hd : k.verb.drawsSegments) (hm : k.verb ≠ .move) :
      step (.command k (g :: gs).flatten) c = follow (Op.oneByOne k (g :: gs)) c := by
    rw [Op.oneByOne_of_ne_move hm, step_segments hd h hr]
  obtain ⟨v, relative⟩ := k
  cases v with
  | line | horizontal | vertical | cubic | smoothCubic | quadratic | smoothQuadratic =>
    exact hsegments rfl (by simp)
  | arc =>
    rw [Op.oneByOne_of_ne_move (by simp)]
    exact step_arcs h c
  | move =>
    cases gs with
    | nil =>
      rw [List.flatten_singleton]
      exact (follow_singleton _ c).symm
    | cons b bs =>
      have hrest : ∀ d ∈ b :: bs, d.length = 2 := fun d hd => h d (List.mem_cons_of_mem g hd)
      obtain ⟨_, zs, -, hzs, -⟩ := Argument.reals_append_ok hr
      have hacc := accepts_flatten (k := ⟨.line, relative⟩) (by simp) hrest
      rw [List.flatten_cons, step_move_append (h g List.mem_cons_self) hacc]
      refine follow_cons_congr fun w t _ => ?_
      rw [follow_singleton]
      exact step_segments (k := ⟨.line, relative⟩) rfl hrest hzs t
  | close => exact absurd rfl hk

/-- A walk along an axis draws up to the first argument that is no number either way, but by itself
it leaves the pen behind then. -/
theorem concur_axis (hk : k.verb = .horizontal ∨ k.verb = .vertical)
    (h : ∀ b ∈ g :: gs, b.length = k.groupSize) (c : Canvas (Recording α) α) :
    Concur (step (.command k (g :: gs).flatten) c) (follow (Op.oneByOne k (g :: gs)) c) := by
  have hclose : k.verb ≠ .close := by rcases hk with hv | hv <;> simp [hv]
  have hmove : k.verb ≠ .move := by rcases hk with hv | hv <;> simp [hv]
  have hall := accepts_flatten hclose h
  rcases hr : Argument.reals (g :: gs).flatten with e | xs
  · rw [Op.oneByOne_of_ne_move hmove]
    cases hz : c.pen.current with
    | none =>
      have hfirst := accepts_group hclose (h g List.mem_cons_self)
      refine .of_eq ?_
      rw [step_axis_none hk hz hall, List.map_cons,
        follow_cons_of_error (step_axis_none hk hz hfirst)]
    | some z =>
      obtain ⟨houtcome, hsurface⟩ := step_axis hk hz hall
      obtain ⟨houtcome', hsurface'⟩ := follow_axis hk hz (g :: gs).flatten
      have hsingle : (g :: gs).map (Op.command k) =
          (g :: gs).flatten.map fun a => Op.command k [a] := by
        have hflat := flatten_singletons fun b hb => (h b hb).trans (groupSize_axis hk)
        exact (congrArg (List.map _) hflat.symm).trans List.map_map
      rw [hsingle]
      refine ⟨houtcome.trans houtcome'.symm, hsurface.trans hsurface'.symm, fun w hw => ?_⟩
      rw [houtcome, hr] at hw
      cases hw
  · exact .of_eq (step_oneByOne hclose h hr c)

theorem follow_append_congr {xs xs' ys ys' : List (Op α)} {c : Canvas (Recording α) α}
    (hx : follow xs c = follow xs' c)
    (hy : ∀ t : Canvas (Recording α) α, follow ys t = follow ys' t) :
    follow (xs ++ ys) c = follow (xs' ++ ys') c := by
  simp only [follow_append, hx, hy]

theorem step_ofElement_spelledOut {e : Element α} {fs : List (Element α)} (h : e.SpelledOut fs)
    (c : Canvas (Recording α) α) : step (Op.ofElement e) c = follow (fs.map Op.ofElement) c := by
  cases h with
  | kept => exact (follow_singleton _ c).symm
  | @groups k hk g gs h =>
    have hnumbers : Argument.ofNumbers (g :: gs).flatten =
        (Argument.ofNumbers g :: gs.map Argument.ofNumbers).flatten := List.map_flatten
    have hlength : ∀ b ∈ Argument.ofNumbers g :: gs.map Argument.ofNumbers,
        b.length = k.groupSize := by
      intro b hb
      rw [← List.map_cons] at hb
      obtain ⟨d, hd, rfl⟩ := List.mem_map.mp hb
      rw [Argument.length_ofNumbers, h d hd]
    have hr := Argument.reals_ofNumbers (g :: gs).flatten
    rw [hnumbers] at hr
    have hwhole : Op.ofElement ⟨k, (g :: gs).flatten⟩ =
        .command k (Argument.ofNumbers g :: gs.map Argument.ofNumbers).flatten :=
      congrArg (Op.command k) hnumbers
    rw [hwhole, step_oneByOne hk hlength hr, Op.oneByOne, List.map_cons, List.map_map,
      List.map_map]
    rfl

theorem follow_spelledOut {es : List (Element α)} {fss : List (List (Element α))}
    (h : List.Forall₂ Element.SpelledOut es fss) (c : Canvas (Recording α) α) :
    follow (es.map Op.ofElement) c = follow (fss.flatten.map Op.ofElement) c := by
  induction h generalizing c with
  | nil => rfl
  | @cons e fs es fss he _ ih =>
    rw [List.flatten_cons, List.map_append, List.map_cons, ← List.singleton_append]
    exact follow_append_congr ((follow_singleton _ c).trans (step_ofElement_spelledOut he c)) ih

end Repeats

section Runs

end Runs

end Canvas

end Linework
