import Linework.Canvas.Op
import Linework.Proofs.Act

/-!
# Calls in a row

Most commands ask the surface for several primitives and move the pen once all of them are drawn.
The loops over lines and curves and the walk along an axis are brought into this form.
-/

set_option autoImplicit false

namespace Linework

def CubicTo.call {α : Type} (c : CubicTo α) : Call α := .cubicTo c.first c.second c.finish

def QuadraticTo.call {α : Type} (q : QuadraticTo α) : Call α := .quadraticTo q.control q.finish

namespace Argument

variable {α : Type} [Scalar α]

/-- The numbers that some arguments begin with, up to the first that is none. -/
def readable : List (Argument α) → List α
  | [] => []
  | a :: rest =>
    match a.real with
    | .ok x => x :: readable rest
    | .error _ => []

theorem readable_cons_ok {a : Argument α} {x : α} (h : a.real = .ok x) (as : List (Argument α)) :
    readable (a :: as) = x :: readable as := by
  rw [readable, h]

theorem readable_cons_error {a : Argument α} {e : Fault} (h : a.real = .error e)
    (as : List (Argument α)) : readable (a :: as) = [] := by
  rw [readable, h]

theorem reals_cons_ok {a : Argument α} {as : List (Argument α)} {xs : List α}
    (h : reals (a :: as) = .ok xs) :
    ∃ y ys, a.real = .ok y ∧ reals as = .ok ys ∧ xs = y :: ys := by
  rw [reals] at h
  obtain ⟨y, ha, h⟩ := exists_of_bind_ok h
  obtain ⟨ys, hr, h⟩ := exists_of_bind_ok h
  exact ⟨y, ys, ha, hr, (Except.ok.inj h).symm⟩

theorem reals_cons_error {a : Argument α} {as : List (Argument α)} {e : Fault}
    (h : reals (a :: as) = .error e) :
    a.real = .error e ∨ ∃ y, a.real = .ok y ∧ reals as = .error e := by
  rcases ha : a.real with f | y
  · rw [reals, ha] at h
    exact .inl (by cases h; rfl)
  rcases hr : reals as with f | ys
  · rw [reals, ha, hr] at h
    exact .inr ⟨y, rfl, by cases h; rfl⟩
  · rw [reals, ha, hr] at h
    cases h

end Argument

theorem Outline.Verb.groupSize_pos {v : Outline.Verb} (h : v ≠ .close) : 0 < v.groupSize := by
  cases v <;> first | decide | exact absurd rfl h

namespace Canvas

section Calls

variable {σ α : Type} [Surface σ α]

def drawCalls : List (Call α) → Act (Canvas σ α) Unit
  | [] => pure ()
  | k :: rest => do
    draw k
    drawCalls rest

def drawThen (calls : List (Call α)) (f : Pen α → Pen α) : Act (Canvas σ α) Unit := do
  drawCalls calls
  movePen f

theorem run_perform_ok {k : Call α} {c : Canvas σ α} {w : List Warning} {s : σ}
    (h : (Surface.perform k : Act σ _).run c.surface = (.ok w, s)) :
    (perform k).run c = (.ok w, { c with surface := s }) := by
  rw [perform, onSurface, Act.run_within, h]

theorem run_perform_error {k : Call α} {c : Canvas σ α} {e : Fault} {s : σ}
    (h : (Surface.perform k : Act σ _).run c.surface = (.error e, s)) :
    (perform k).run c = (.error e, { c with surface := s }) := by
  rw [perform, onSurface, Act.run_within, h]

theorem run_draw_ok {k : Call α} {c : Canvas σ α} {w : List Warning} {s : σ}
    (h : (Surface.perform k : Act σ _).run c.surface = (.ok w, s)) :
    (draw k).run c = (.ok (), { c with surface := s }) := by
  rw [draw, Act.run_bind_ok (run_perform_ok h)]
  rfl

theorem run_draw_error {k : Call α} {c : Canvas σ α} {e : Fault} {s : σ}
    (h : (Surface.perform k : Act σ _).run c.surface = (.error e, s)) :
    (draw k).run c = (.error e, { c with surface := s }) := by
  rw [draw, Act.run_bind_error (run_perform_error h)]

omit [Surface σ α] in
theorem run_movePen (f : Pen α → Pen α) (c : Canvas σ α) :
    (movePen f).run c = (.ok (), { c with pen := f c.pen }) := rfl

theorem performAll_cons_ok {k : Call α} {rest : List (Call α)} {s t : σ} {w : List Warning}
    (h : (Surface.perform k : Act σ _).run s = (.ok w, t)) :
    Surface.performAll (k :: rest) s =
      (w ++ (Surface.performAll rest t).1, (Surface.performAll rest t).2) := by
  rw [Surface.performAll, h]

theorem performAll_cons_error {k : Call α} {rest : List (Call α)} {s t : σ} {e : Fault}
    (h : (Surface.perform k : Act σ _).run s = (.error e, t)) :
    Surface.performAll (k :: rest) s = ([], some e, t) := by
  rw [Surface.performAll, h]

theorem run_drawCalls (calls : List (Call α)) (c : Canvas σ α) :
    (drawCalls calls).run c =
      ((Surface.performAll calls c.surface).2.1.elim (.ok ()) .error,
        { c with surface := (Surface.performAll calls c.surface).2.2 }) := by
  induction calls generalizing c with
  | nil => rfl
  | cons k rest ih =>
    rcases h : (Surface.perform k : Act σ _).run c.surface with ⟨e | w, s⟩
    · rw [drawCalls, Act.run_bind_error (run_draw_error h), performAll_cons_error h]
      rfl
    · rw [drawCalls, Act.run_bind_ok (run_draw_ok h), ih, performAll_cons_ok h]

theorem run_drawCalls_ok {calls : List (Call α)} {c : Canvas σ α} {w : List Warning} {s : σ}
    (h : Surface.performAll calls c.surface = (w, none, s)) :
    (drawCalls calls).run c = (.ok (), { c with surface := s }) := by
  rw [run_drawCalls, h]
  rfl

theorem run_drawCalls_error {calls : List (Call α)} {c : Canvas σ α} {w : List Warning}
    {e : Fault} {s : σ} (h : Surface.performAll calls c.surface = (w, some e, s)) :
    (drawCalls calls).run c = (.error e, { c with surface := s }) := by
  rw [run_drawCalls, h]
  rfl

theorem drawThen_singleton (k : Call α) (f : Pen α → Pen α) :
    (drawThen [k] f : Act (Canvas σ α) Unit) = (draw k >>= fun _ => movePen f) := by
  simp [drawThen, drawCalls]

theorem drawThen_cons (k : Call α) (rest : List (Call α)) (f : Pen α → Pen α) :
    (drawThen (k :: rest) f : Act (Canvas σ α) Unit) =
      (draw k >>= fun _ => drawThen rest f) := by
  simp [drawThen, drawCalls]

theorem drawCalls_singleton (k : Call α) :
    (drawCalls [k] : Act (Canvas σ α) Unit) = draw k := by
  simp [drawCalls]

theorem pen_of_drawThen {calls : List (Call α)} {f : Pen α → Pen α} {c t : Canvas σ α}
    (h : (drawThen calls f).run c = (.ok (), t)) : t.pen = f c.pen := by
  rcases hs : Surface.performAll calls c.surface with ⟨w, e, s⟩
  cases e with
  | none =>
    rw [drawThen, Act.run_bind_ok (run_drawCalls_ok hs), run_movePen] at h
    cases h
    rfl
  | some e =>
    rw [drawThen, Act.run_bind_error (run_drawCalls_error hs)] at h
    cases h

theorem isOpen_of_moveTo {z : Point α} {c t : Canvas σ α}
    (h : (moveTo z).run c = (.ok (), t)) : t.pen.isOpen := by
  rw [moveTo, ← drawThen_singleton] at h
  rw [pen_of_drawThen h]
  rfl

theorem run_ensureOpenAt_of_open {z : Point α} {c : Canvas σ α} (h : c.pen.isOpen) :
    (ensureOpenAt z).run c = (.ok (), c) := by
  rw [ensureOpenAt, Act.run_bind_ok (Act.run_get c), if_pos h, Act.run_pure]

/-- With the pen before the surface, a subpath is open even if its move is refused. -/
theorem run_ensureOpenAt_of_closed {z : Point α} {c : Canvas σ α} (h : c.pen.isOpen = false)
    (ha : c.autoOpen) :
    (ensureOpenAt z).run c = (drawCalls [.moveTo z]).run { c with pen := c.pen.openAt z } := by
  rw [ensureOpenAt, Act.run_bind_ok (Act.run_get c), if_neg (by simp [h]), if_pos ha,
    Act.run_bind_ok (run_movePen _ c)]
  rw [drawCalls_singleton]

theorem run_ensureOpenAt_of_strict {z : Point α} {c : Canvas σ α} (h : c.pen.isOpen = false)
    (ha : c.autoOpen = false) : (ensureOpenAt z).run c = (.error .noOpenSubpath, c) := by
  rw [ensureOpenAt, Act.run_bind_ok (Act.run_get c), if_neg (by simp [h]), if_neg (by simp [ha]),
    Act.run_throw]

theorem isOpen_of_ensureOpenAt {z : Point α} {c t : Canvas σ α}
    (h : (ensureOpenAt z).run c = (.ok (), t)) : t.pen.isOpen := by
  cases ho : c.pen.isOpen with
  | true =>
    rw [run_ensureOpenAt_of_open ho] at h
    cases h
    exact ho
  | false =>
    cases ha : c.autoOpen with
    | false =>
      rw [run_ensureOpenAt_of_strict ho ha] at h
      cases h
    | true =>
      rw [run_ensureOpenAt_of_closed ho ha, run_drawCalls] at h
      cases congrArg Prod.snd h
      rfl

omit [Surface σ α] in
theorem run_requireCurrent (c : Canvas σ α) :
    requireCurrent.run c = (c.pen.requireCurrent, c) := by
  rw [requireCurrent, Act.run_bind_ok (Act.run_get c), Act.run_ofExcept]

omit [Surface σ α] in
theorem run_requireCurrent_of_some {c : Canvas σ α} {z : Point α} (h : c.pen.current = some z) :
    requireCurrent.run c = (.ok z, c) := by
  rw [run_requireCurrent, Pen.requireCurrent, h]

omit [Surface σ α] in
theorem run_requireCurrent_of_none {c : Canvas σ α} (h : c.pen.current = none) :
    requireCurrent.run c = (.error .noCurrentPoint, c) := by
  rw [run_requireCurrent, Pen.requireCurrent, h]

omit [Surface σ α] in
theorem run_requireControl_of_some {curve : Curve} {c : Canvas σ α} {z : Point α}
    (h : c.pen.control curve = some z) : (requireControl curve).run c = (.ok z, c) := by
  rw [requireControl, Act.run_bind_ok (Act.run_get c), h, Act.run_pure]

omit [Surface σ α] in
theorem run_requireControl_of_none {curve : Curve} {c : Canvas σ α}
    (h : c.pen.control curve = none) :
    (requireControl curve).run c = (.error (.noSmoothContext curve), c) := by
  rw [requireControl, Act.run_bind_ok (Act.run_get c), h, Act.run_throw]

omit [Surface σ α] in
theorem run_quietly (m : Act (Canvas σ α) Unit) (c : Canvas σ α) :
    (quietly m).run c =
      match m.run c with
      | (.ok _, t) => (.ok [], t)
      | (.error e, t) => (.error e, t) := by
  rw [quietly, Act.run_bind]
  rcases m.run c with ⟨_ | _, t⟩ <;> rfl

end Calls

section Loops

variable {σ α : Type} [Surface σ α]

theorem drawLines_concat (zs : List (Point α)) (z : Point α) :
    (drawLines (zs ++ [z]) : Act (Canvas σ α) Unit) =
      drawThen ((zs ++ [z]).map .lineTo) fun p => p.moveTo z := by
  induction zs with
  | nil => exact (drawThen_singleton (.lineTo z) _).symm
  | cons a rest ih =>
    rw [List.cons_append, drawLines.eq_3 _ _ (by simp), ih, List.map_cons, drawThen_cons]

theorem drawCubics_concat (cs : List (CubicTo α)) (c : CubicTo α) :
    (drawCubics (cs ++ [c]) : Act (Canvas σ α) Unit) =
      drawThen ((cs ++ [c]).map CubicTo.call) fun p => p.curveTo .cubic c.second c.finish := by
  induction cs with
  | nil => exact (drawThen_singleton c.call _).symm
  | cons a rest ih =>
    rw [List.cons_append, drawCubics.eq_3 _ _ (by simp), ih, List.map_cons, drawThen_cons]
    rfl

theorem drawQuadratics_concat (qs : List (QuadraticTo α)) (q : QuadraticTo α) :
    (drawQuadratics (qs ++ [q]) : Act (Canvas σ α) Unit) =
      drawThen ((qs ++ [q]).map QuadraticTo.call)
        fun p => p.curveTo .quadratic q.control q.finish := by
  induction qs with
  | nil => exact (drawThen_singleton q.call _).symm
  | cons a rest ih =>
    rw [List.cons_append, drawQuadratics.eq_3 _ _ (by simp), ih, List.map_cons, drawThen_cons]
    rfl

def walk (step : Point α → α → Point α) : Point α → List α → List (Point α)
  | _, [] => []
  | p, x :: rest => step p x :: walk step (step p x) rest

variable [Scalar α]

omit [Surface σ α] in
theorem points_of_reals {as : List (Argument α)} {xs : List α} (h : Argument.reals as = .ok xs) :
    (points as : Act (Canvas σ α) (List (Point α))) = pure (Point.pairs xs) := by
  rw [points, h]
  rfl

theorem drawAlong_of_reals (step : Point α → α → Point α) (p : Point α)
    {as : List (Argument α)} {xs : List α} (h : Argument.reals as = .ok xs) :
    (drawAlong step p as : Act (Canvas σ α) Unit) = drawLines (walk step p xs) := by
  induction as generalizing p xs with
  | nil => cases Except.ok.inj h; rfl
  | cons a rest ih =>
    obtain ⟨x, ys, ha, hr, rfl⟩ := Argument.reals_cons_ok h
    cases rest with
    | nil =>
      cases Except.ok.inj hr
      rw [drawAlong, ha, Act.ofExcept_ok, pure_bind]
      rfl
    | cons b rest =>
      have hw : walk step (step p x) ys ≠ [] := by
        obtain ⟨y, zs, -, -, rfl⟩ := Argument.reals_cons_ok hr
        simp [walk]
      rw [drawAlong.eq_3 _ _ _ _ (by simp), ha, Act.ofExcept_ok, pure_bind, ih (step p x) hr,
        walk, drawLines.eq_3 _ _ hw]

/-- A walk ends at the first argument that is no number, with the lines up to there drawn. -/
theorem drawAlong_of_error (step : Point α → α → Point α) (p : Point α)
    {as : List (Argument α)} {e : Fault} (h : Argument.reals as = .error e) :
    (drawAlong step p as : Act (Canvas σ α) Unit) =
      (drawCalls ((walk step p (Argument.readable as)).map .lineTo) >>= fun _ => throw e) := by
  induction as generalizing p with
  | nil => cases h
  | cons a rest ih =>
    rcases Argument.reals_cons_error h with ha | ⟨x, ha, hr⟩
    · have hd : (drawAlong step p (a :: rest) : Act (Canvas σ α) Unit) = throw e := by
        cases rest <;> rw [drawAlong, ha, Act.ofExcept_error, Act.throw_bind]
        simp
      rw [hd, Argument.readable_cons_error ha]
      rfl
    · cases rest with
      | nil => cases hr
      | cons b rest =>
        rw [drawAlong.eq_3 _ _ _ _ (by simp), ha, Act.ofExcept_ok, pure_bind, ih (step p x) hr,
          Argument.readable_cons_ok ha]
        simp only [walk, List.map_cons, drawCalls, bind_assoc]

end Loops

section Counts

open Outline (Command Verb)

theorem groups_of_accepts {v : Verb} (hv : v ≠ .close) {relative : Bool} {n : Nat}
    (h : accepts ⟨v, relative⟩ n) : n % v.groupSize = 0 := by
  rw [accepts, if_neg hv, Bool.and_eq_true] at h
  exact beq_iff_eq.mp h.2

theorem groupSize_le_of_accepts {k : Command} {n : Nat} (h : accepts k n) : k.groupSize ≤ n := by
  obtain ⟨v, relative⟩ := k
  by_cases hv : v = .close
  · subst hv
    exact Nat.zero_le n
  · have hmod := groups_of_accepts hv h
    rw [accepts, if_neg hv, Bool.and_eq_true, bne_iff_ne] at h
    exact Nat.le_of_dvd (Nat.pos_of_ne_zero h.1) (Nat.dvd_of_mod_eq_zero hmod)

theorem accepts_of_mul {k : Command} (hk : k.verb ≠ .close) {m n : Nat} (hm : 0 < m)
    (hn : n = m * k.groupSize) : accepts k n := by
  rw [accepts, if_neg hk, hn, Nat.mul_mod_left, Bool.and_eq_true, bne_iff_ne]
  exact ⟨Nat.ne_of_gt (Nat.mul_pos hm (Verb.groupSize_pos hk)), rfl⟩

theorem accepts_group {β : Type} {k : Command} (hk : k.verb ≠ .close) {g : List β}
    (h : g.length = k.groupSize) : accepts k g.length :=
  accepts_of_mul hk Nat.one_pos (h.trans (Nat.one_mul _).symm)

theorem groupSize_axis {k : Command} (h : k.verb = .horizontal ∨ k.verb = .vertical) :
    k.groupSize = 1 := by
  rcases h with h | h <;> rw [Command.groupSize, h] <;> rfl

theorem accepts_axis {k : Command} (h : k.verb = .horizontal ∨ k.verb = .vertical) {n : Nat}
    (hn : n ≠ 0) : accepts k n := by
  refine accepts_of_mul ?_ (Nat.pos_of_ne_zero hn) ?_
  · rcases h with h | h <;> rw [h] <;> decide
  · rw [groupSize_axis h, Nat.mul_one]

theorem step_command {σ α : Type} [Scalar α] [Surface σ α] {k : Command} {as : List (Argument α)}
    (ha : accepts k as.length) (c : Canvas σ α) :
    step (.command k as) c =
      (((carryOut k as).run c).1.map fun _ => [], ((carryOut k as).run c).2) := by
  change (quietly (command k as)).run c = _
  rw [command, if_pos ha, run_quietly]
  rcases (carryOut k as).run c with ⟨e | _, t⟩ <;> rfl

end Counts

end Canvas

end Linework
