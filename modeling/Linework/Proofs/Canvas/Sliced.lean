import Linework.Proofs.Canvas.Groups

/-!
# Commands in slices

A command that accepts its arguments cuts them into whole groups, of which there is one at least.
It makes no difference whether the groups are slices of the numbers or of the points that these
are read as. An absolute line or curve hands each group on to the surface as it is, so that the
calls that a recording keeps of it hold the given numbers and no others.
-/

set_option autoImplicit false

namespace Linework

open Outline (Command Verb)

section Groups

variable {β : Type}

def CubicTo.coordinates (c : CubicTo β) : List β :=
  [c.first.x, c.first.y, c.second.x, c.second.y, c.finish.x, c.finish.y]

def QuadraticTo.coordinates (q : QuadraticTo β) : List β :=
  [q.control.x, q.control.y, q.finish.x, q.finish.y]

def ArcTo.members (a : ArcTo β) : List β :=
  [a.radii.x, a.radii.y, a.rotation, a.large, a.clockwise, a.finish.x, a.finish.y]

def Outline.Verb.groups (v : Verb) (bs : List β) : List (List β) :=
  match v with
  | .move | .line | .smoothQuadratic => (Point.pairs bs).map Point.coordinates
  | .horizontal | .vertical => bs.map fun b => [b]
  | .cubic => (CubicTo.group (Point.pairs bs)).map CubicTo.coordinates
  | .smoothCubic | .quadratic => (QuadraticTo.group (Point.pairs bs)).map QuadraticTo.coordinates
  | .arc => (ArcTo.group bs).map ArcTo.members
  | .close => []

theorem Outline.Verb.groups_of_short (v : Verb) {bs : List β} (h : bs.length < v.groupSize) :
    v.groups bs = [] := by
  cases v with
  | move | line | smoothQuadratic =>
    match bs, h with
    | [], _ | [_], _ => rfl
  | horizontal | vertical =>
    match bs, h with
    | [], _ => rfl
  | cubic =>
    match bs, h with
    | [], _ | [_], _ | [_, _], _ | [_, _, _], _ | [_, _, _, _], _ | [_, _, _, _, _], _ => rfl
  | smoothCubic | quadratic =>
    match bs, h with
    | [], _ | [_], _ | [_, _], _ | [_, _, _], _ => rfl
  | arc =>
    match bs, h with
    | [], _ | [_], _ | [_, _], _ | [_, _, _], _ | [_, _, _, _], _ | [_, _, _, _, _], _
    | [_, _, _, _, _, _], _ => rfl
  | close => rfl

theorem Outline.Verb.groups_append {v : Verb} (hv : v ≠ .close) {g : List β}
    (hg : g.length = v.groupSize) (bs : List β) : v.groups (g ++ bs) = g :: v.groups bs := by
  cases v with
  | move | line | smoothQuadratic =>
    match g, hg with
    | [_, _], _ => rfl
  | horizontal | vertical =>
    match g, hg with
    | [_], _ => rfl
  | cubic =>
    match g, hg with
    | [_, _, _, _, _, _], _ => rfl
  | smoothCubic | quadratic =>
    match g, hg with
    | [_, _, _, _], _ => rfl
  | arc =>
    match g, hg with
    | [_, _, _, _, _, _, _], _ => rfl
  | close => exact absurd rfl hv

theorem Outline.Verb.groups_eq_slices {v : Verb} (hv : v ≠ .close) (bs : List β) :
    v.groups bs = slices v.groupSize bs :=
  eq_slices (Verb.groupSize_pos hv) (fun _ h => v.groups_of_short h)
    (fun _ bs hg => Verb.groups_append hv hg bs) bs

/-- The primitive that an absolute command hands its groups on to as they are. -/
def Outline.Verb.primitive? : Verb → Option Primitive
  | .line => some .lineTo
  | .cubic => some .cubicTo
  | .quadratic => some .quadraticTo
  | _ => none

/-- What is given to a command is cut into slices of its group size, one at least, and these are
the groups that it reads. If the size is even, it is read as points first, of which none lacks a
coordinate, and slices of half the size of the points are the same groups. -/
structure Sliced (k : Command) (bs : List β) : Prop where
  cut : Cuts k.groupSize bs (slices k.groupSize bs)
  ne_nil : slices k.groupSize bs ≠ []
  groups : k.verb.groups bs = slices k.groupSize bs
  pairs : 2 ∣ k.groupSize → Point.pairsAt? bs = some (Point.pairs bs)
  points : 2 ∣ k.groupSize → (slices (k.groupSize / 2) (Point.pairs bs)).map
    (List.flatMap Point.coordinates) = slices k.groupSize bs

end Groups

namespace Canvas

section Accepted

variable {β : Type} {k : Command}

theorem ne_close_of_groupSize_pos (hk : 0 < k.groupSize) : k.verb ≠ .close := by
  intro hv
  rw [Command.groupSize, hv] at hk
  exact absurd hk (by decide)

theorem sliced_of_accepts (hk : 0 < k.groupSize) {bs : List β} (ha : accepts k bs.length) :
    Sliced k bs := by
  have hclose := ne_close_of_groupSize_pos hk
  have hmod : bs.length % k.groupSize = 0 := groups_of_accepts hclose ha
  have hcut := cuts_slices hk bs hmod
  have hne : bs ≠ [] := List.ne_nil_of_length_pos (hk.trans_le (groupSize_le_of_accepts ha))
  refine ⟨hcut, hcut.ne_nil hne, Verb.groups_eq_slices hclose bs, fun htwo => ?_, fun htwo => ?_⟩
  · have heven : bs.length % 2 = 0 :=
      Nat.mod_eq_zero_of_dvd (htwo.trans (Nat.dvd_of_mod_eq_zero hmod))
    rw [Point.pairsAt?_eq, if_pos heven]
  · obtain ⟨m, hm⟩ := htwo
    rw [hm, Nat.mul_div_cancel_left m Nat.two_pos]
    exact Point.slices_pairs (by omega) bs

end Accepted

section Handing

variable {α : Type} [Scalar α] {k : Command} {q : Primitive} {c : Canvas (Recording α) α}

def opened (c : Canvas (Recording α) α) (z : Point α) : Canvas (Recording α) α :=
  if c.pen.isOpen then c
  else { c with surface := c.surface.recordAll [.moveTo z], pen := c.pen.openAt z }

omit [Scalar α] in
theorem run_ensureOpenAt_recording (z : Point α) (h : c.pen.isOpen ∨ c.autoOpen) :
    (ensureOpenAt z).run c = (.ok (), c.opened z) := by
  cases ho : c.pen.isOpen with
  | true => rw [run_ensureOpenAt_of_open ho, opened, if_pos ho]
  | false =>
    have hauto : c.autoOpen := h.resolve_left (by simp [ho])
    rw [run_ensureOpenAt_of_closed ho hauto, run_drawCalls_ok (Recording.performAll_eq _ _), opened,
      if_neg (by simp [ho])]

theorem calls_row (hq : k.verb.primitive? = some q) (hr : k.relative = false) (p : Pen α)
    (xs : List α) :
    (p.row k xs).map Segment.call =
      (k.verb.groups xs).map fun g => ⟨q, Argument.ofNumbers g⟩ := by
  obtain ⟨v, relative⟩ := k
  cases hr
  cases v with
  | line | cubic | quadratic =>
    cases hq
    simp only [Pen.row, Verb.groups, List.map_map]
    rfl
  | move | horizontal | vertical | smoothCubic | smoothQuadratic | arc | close => cases hq

theorem opens_of_primitive (hq : k.verb.primitive? = some q) (hr : k.relative = false) :
    k.verb.drawsSegments ∧ k.verb.reflects? = none ∧ k.opens := by
  obtain ⟨v, relative⟩ := k
  cases hr
  cases v with
  | line | cubic | quadratic => exact ⟨rfl, rfl, rfl⟩
  | move | horizontal | vertical | smoothCubic | smoothQuadratic | arc | close => cases hq

variable {as : List (Argument α)} {xs : List α}

theorem exists_run_carryOut (hq : k.verb.primitive? = some q) (hr : k.relative = false)
    (ha : accepts k as.length) (hxs : Argument.reals as = .ok xs) :
    ∃ z, (Point.pairs xs).take 1 = [z] ∧ ∀ c : Canvas (Recording α) α, (carryOut k as).run c =
      (ensureOpenAt z >>= fun _ => get >>= fun d => drawSegments (d.pen.row k xs)).run c := by
  obtain ⟨hd, hv, ho⟩ := opens_of_primitive hq hr
  have hlength : 2 ≤ xs.length := by
    rw [Argument.length_reals hxs]
    exact (Outline.Command.two_le_of_opens ho).trans (groupSize_le_of_accepts ha)
  match xs, hlength with
  | x :: y :: rest, _ =>
    refine ⟨⟨x, y⟩, rfl, fun c => ?_⟩
    rw [run_carryOut_of_reals hd hxs, lookFor_of_opens hv ho, pure_bind, drawNumbers, openFor,
      if_pos ho]

theorem step_handing_of_strict (hq : k.verb.primitive? = some q) (hr : k.relative = false)
    (ha : accepts k as.length) (hxs : Argument.reals as = .ok xs) (ho : c.pen.isOpen = false)
    (hauto : c.autoOpen = false) : step (.command k as) c = (.error .noOpenSubpath, c) := by
  obtain ⟨z, -, hrun⟩ := exists_run_carryOut hq hr ha hxs
  rw [step_command ha, hrun, Act.run_bind_error (run_ensureOpenAt_of_strict ho hauto)]
  rfl

theorem step_handing (hq : k.verb.primitive? = some q) (hr : k.relative = false)
    (ha : accepts k as.length) (hxs : Argument.reals as = .ok xs)
    (ho : c.pen.isOpen ∨ c.autoOpen) :
    ∃ z, (Point.pairs xs).take 1 = [z] ∧ step (.command k as) c =
      (.ok [], (c.opened z).after ((c.opened z).pen.row k xs)) := by
  obtain ⟨z, hz, hrun⟩ := exists_run_carryOut hq hr ha hxs
  refine ⟨z, hz, ?_⟩
  rw [step_command ha, hrun, Act.run_bind_ok (run_ensureOpenAt_recording z ho),
    Act.run_bind_ok (Act.run_get _), run_drawSegments_recording]
  rfl

omit [Scalar α] in
theorem calls_opened (c : Canvas (Recording α) α) (z : Point α) :
    (c.opened z).surface.calls =
      c.surface.calls ++ if c.pen.isOpen then [] else [.moveTo z] := by
  rw [opened]
  split
  · rw [List.append_nil]
  · rw [Recording.calls_recordAll]

/-- The arguments that a command accepts fall into whole groups, one at least and none of them cut
short: as they are, as numbers and as points. An absolute line or curve records one call for each
group, with the numbers of this group for its arguments, so that its calls hold just the numbers
that were given. -/
theorem accepted_sliced (k : Command) (as : List (Argument α)) (hk : 0 < k.groupSize)
    (ha : accepts k as.length) :
    Sliced k as ∧ ∀ xs, Argument.reals as = .ok xs → Sliced k xs ∧
      ∀ (q : Primitive) (c : Canvas (Recording α) α), k.relative = false →
        k.verb.primitive? = some q →
        (c.pen.isOpen = false → c.autoOpen = false →
          step (.command k as) c = (.error .noOpenSubpath, c)) ∧
        (c.pen.isOpen ∨ c.autoOpen → ∃ (t : Canvas (Recording α) α) (drawn : List (Call α)),
          step (.command k as) c = (.ok [], t) ∧
          t.surface.calls = c.surface.calls ++
            (if c.pen.isOpen then [] else ((Point.pairs xs).take 1).map .moveTo) ++ drawn ∧
          drawn = (slices k.groupSize xs).map (fun g => ⟨q, Argument.ofNumbers g⟩) ∧
          drawn.flatMap Call.arguments = Argument.ofNumbers xs) := by
  refine ⟨sliced_of_accepts hk ha, fun xs hxs => ?_⟩
  have hsliced : Sliced k xs := sliced_of_accepts hk (by rwa [Argument.length_reals hxs])
  refine ⟨hsliced, fun q c hr hq => ⟨step_handing_of_strict hq hr ha hxs, fun ho => ?_⟩⟩
  obtain ⟨z, hz, hstep⟩ := step_handing hq hr ha hxs ho
  refine ⟨_, _, hstep, ?_, rfl, ?_⟩
  · rw [after, Recording.calls_recordAll, calls_opened, calls_row hq hr, hsliced.groups, hz]
    rfl
  · calc ((slices k.groupSize xs).map fun g => (⟨q, Argument.ofNumbers g⟩ : Call α)).flatMap
          Call.arguments
        = (slices k.groupSize xs).flatMap Argument.ofNumbers := List.flatMap_map ..
      _ = Argument.ofNumbers (slices k.groupSize xs).flatten := List.map_flatten.symm
      _ = Argument.ofNumbers xs := congrArg Argument.ofNumbers hsliced.cut.whole

theorem accepted_sliced_two_curves :
    let numbers : List Float := [1, 2, 3, 4, 5, 6, 7, 8, 9, 10, 11, 12]
    let k : Command := ⟨.cubic, false⟩
    0 < k.groupSize ∧ accepts k (Argument.ofNumbers numbers).length ∧
      slices 3 (Point.pairs numbers) =
        [[⟨1, 2⟩, ⟨3, 4⟩, ⟨5, 6⟩], [⟨7, 8⟩, ⟨9, 10⟩, ⟨11, 12⟩]] ∧
      ∃ t : Canvas (Recording Float) Float,
        step (.command k (Argument.ofNumbers numbers)) (fresh .empty true .radians) =
          (.ok [], t) ∧
        t.surface.calls = [.moveTo ⟨1, 2⟩, .cubicTo ⟨1, 2⟩ ⟨3, 4⟩ ⟨5, 6⟩,
          .cubicTo ⟨7, 8⟩ ⟨9, 10⟩ ⟨11, 12⟩] := by
  intro numbers k
  have hk : 0 < k.groupSize := by decide
  have ha : accepts k (Argument.ofNumbers numbers).length := by decide
  have hxs : Argument.reals (Argument.ofNumbers numbers) = .ok numbers :=
    Argument.reals_ofNumbers numbers
  obtain ⟨-, hgroups⟩ := accepted_sliced k (Argument.ofNumbers numbers) hk ha
  obtain ⟨-, hhanding⟩ := hgroups numbers hxs
  obtain ⟨t, _, hstep, hcalls, rfl, -⟩ :=
    (hhanding .cubicTo (fresh .empty true .radians) rfl rfl).2 (.inr rfl)
  exact ⟨hk, ha, rfl, t, hstep, hcalls⟩

end Handing

end Canvas

end Linework
