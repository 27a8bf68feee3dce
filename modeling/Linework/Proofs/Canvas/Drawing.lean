import Linework.Proofs.Canvas.Calls
import Mathlib.Data.List.Basic

/-!
# What an operation does to a canvas

Every operation either draws, by finitely many strokes of a few kinds, or makes one change of
another kind. A stroke is a row of calls together with the pen that it leaves; on a surface that
refuses a call the pen stays where it was, except that a subpath that is opened implicitly has
been opened with the pen already. Only a walk along an axis can draw lines and leave the pen
behind: it looks at an argument when its line is due.
-/

set_option autoImplicit false

namespace Linework

open Scalar
open Outline (Command Element)

namespace Primitive

def lifts : Primitive → Bool
  | beginPath | translate | scale | rotate | transform | setTransform => true
  | _ => false

def isPath : Primitive → Bool
  | moveTo | lineTo | cubicTo | quadraticTo | ellipse | closePath => true
  | _ => false

theorem lifts_of_isPath {p : Primitive} (h : p.isPath) : p.lifts = false := by
  revert h
  cases p <;> decide

end Primitive

/-- The strokes of a pen: the calls that are drawn, and where the pen is afterwards. -/
inductive Pen.Draws {α : Type} [Scalar α] (p : Pen α) : List (Call α) → Pen α → Prop
  | start (z : Point α) : Draws p [.moveTo z] (p.openAt z)
  | lines (h : p.isOpen) (zs : List (Point α)) (z : Point α) :
      Draws p ((zs ++ [z]).map .lineTo) (p.moveTo z)
  | cubics (h : p.isOpen) (cs : List (CubicTo α)) (c : CubicTo α) :
      Draws p ((cs ++ [c]).map CubicTo.call) (p.curveTo .cubic c.second c.finish)
  | quadratics (h : p.isOpen) (qs : List (QuadraticTo α)) (q : QuadraticTo α) :
      Draws p ((qs ++ [q]).map QuadraticTo.call) (p.curveTo .quadratic q.control q.finish)
  | arc {z : Point α} (h : p.current = some z) (request : EndpointArc α) {a : Arc α}
      (ha : request.toArc z true = .ok a) :
      Draws p [.oval ⟨a.ellipse, a.startAngle, a.endAngle, !request.clockwise⟩]
        (p.moveTo request.finish)
  | omitted {z : Point α} (h : p.current = some z) (finish : Point α) (hz : z.beq finish) :
      Draws p [] (p.moveTo finish)
  | oval (h : p.isOpen) (r : OvalRequest α) {radii : Point α} {o : Oval α} {a : Arc α}
      (hr : Argument.point r.radii = .ok radii) (hx : blt radii.x (whole 0) = false)
      (hy : blt radii.y (whole 0) = false) (ho : r.toOval = .ok o) (ha : o.toArc = .ok a) :
      Draws p [r.call] (p.moveTo a.finish)
  | corner {z : Point α} (h : p.current = some z) (p1 p2 : Point α) {r : Argument α} {x : α}
      {f : Fillet α} (hr : r.real = .ok x) (hx : blt x (whole 0) = false)
      (hf : Fillet.of? z p1 p2 x = .ok (some f)) :
      Draws p [.lineTo f.start, f.call r] (p.moveTo f.finish)
  | close : Draws p [.closePath] p.close

theorem Pen.Draws.isPath {α : Type} [Scalar α] {p q : Pen α} {calls : List (Call α)}
    (h : p.Draws calls q) : ∀ k ∈ calls, k.primitive.isPath := by
  intro k hk
  cases h with
  | start z | arc hz request ha | oval ho r hr hx hy hq ha | close =>
    rw [List.mem_singleton.mp hk]
    rfl
  | lines ho zs z | cubics ho cs c | quadratics ho qs q =>
    obtain ⟨_, -, rfl⟩ := List.mem_map.mp hk
    rfl
  | omitted hz finish he => cases hk
  | corner hz p1 p2 hr hx hf =>
    rcases List.mem_pair.mp hk with rfl | rfl <;> rfl

theorem Pen.Draws.isOpen_cases {α : Type} [Scalar α] {p q : Pen α} {calls : List (Call α)}
    (h : p.Draws calls q) :
    p.isOpen ∨ (∃ z, calls = [.moveTo z] ∧ q = p.openAt z) ∨
      (calls = [.closePath] ∧ q = p.close) := by
  cases h with
  | start z => exact .inr (.inl ⟨z, rfl, rfl⟩)
  | lines ho _ _ | cubics ho _ _ | quadratics ho _ _ | oval ho _ _ _ _ _ _ => exact .inl ho
  | arc hz _ _ | omitted hz _ _ | corner hz _ _ _ _ _ => exact .inl (isOpen_iff.mpr ⟨_, hz⟩)
  | close => exact .inr (.inr ⟨rfl, rfl⟩)

theorem ArcTo.finish_of_request {α : Type} [Scalar α] {a : ArcTo (Argument α)} {z : Point α}
    {request : EndpointArc α} (h : a.request z = .ok request) : request.finish = z := by
  rw [ArcTo.request] at h
  obtain ⟨radii, -, h⟩ := exists_of_bind_ok h
  obtain ⟨rotation, -, h⟩ := exists_of_bind_ok h
  rw [← Except.ok.inj h]

/-- Whether an operation is a walk along an axis that breaks off: its first argument is a number
and a later one is none. -/
def Op.BreaksOff {α : Type} [Scalar α] : Op α → Prop
  | .command c (a :: rest) => (c.verb = .horizontal ∨ c.verb = .vertical) ∧
      (∃ x, a.real = .ok x) ∧ ∃ e, Argument.reals rest = .error e
  | _ => False

theorem Op.not_breaksOff_ofNumbers {α : Type} [Scalar α] (k : Command) (xs : List α) :
    ¬ (Op.command k (Argument.ofNumbers xs)).BreaksOff := by
  cases xs with
  | nil => exact id
  | cons x rest =>
    rintro ⟨-, -, e, he⟩
    rw [← Argument.ofNumbers, Argument.reals_ofNumbers] at he
    cases he

namespace Canvas

variable {σ α : Type} [Scalar α] [Surface σ α]

/-- One stroke on a canvas. Lines that leave the pen behind are allowed if `stops` holds. -/
inductive Drawing (stops : Prop) (c : Canvas σ α) : Canvas σ α → Prop
  | drawn {calls : List (Call α)} {p : Pen α} {w : List Warning} {s : σ}
      (h : c.pen.Draws calls p) (hs : Surface.performAll calls c.surface = (w, none, s)) :
      Drawing stops c { c with surface := s, pen := p }
  | refused {calls : List (Call α)} {p : Pen α} {w : List Warning} {e : Fault} {s : σ}
      (h : c.pen.Draws calls p) (hs : Surface.performAll calls c.surface = (w, some e, s)) :
      Drawing stops c { c with surface := s }
  | ahead {z : Point α} {w : List Warning} {e : Fault} {s : σ} (h : c.pen.isOpen = false)
      (hs : Surface.performAll [.moveTo z] c.surface = (w, some e, s)) :
      Drawing stops c { c with surface := s, pen := c.pen.openAt z }
  | stopped {zs : List (Point α)} {z : Point α} {w : List Warning} {s : σ} (h : stops)
      (ho : c.pen.isOpen)
      (hs : Surface.performAll ((zs ++ [z]).map .lineTo) c.surface = (w, none, s)) :
      Drawing stops c { c with surface := s }

variable {stops : Prop}

theorem moves_drawThen {calls : List (Call α)} {f : Pen α → Pen α} {c : Canvas σ α}
    (h : c.pen.Draws calls (f c.pen)) : Act.Moves (Drawing stops) (drawThen calls f) c := by
  apply Act.moves_of_step
  rcases hs : Surface.performAll calls c.surface with ⟨w, e, s⟩
  cases e with
  | none =>
    rw [drawThen, Act.run_bind_ok (run_drawCalls_ok hs)]
    exact .drawn h hs
  | some e =>
    rw [drawThen, Act.run_bind_error (run_drawCalls_error hs)]
    exact .refused h hs

theorem moves_draw_movePen {k : Call α} {f : Pen α → Pen α} {c : Canvas σ α}
    (h : c.pen.Draws [k] (f c.pen)) :
    Act.Moves (Drawing stops) (draw k >>= fun _ => movePen f) c := by
  rw [← drawThen_singleton]
  exact moves_drawThen h

theorem moves_drawLines {c : Canvas σ α} (h : c.pen.isOpen) (zs : List (Point α)) :
    Act.Moves (Drawing stops) (drawLines zs) c := by
  rcases List.eq_nil_or_concat' zs with rfl | ⟨init, z, rfl⟩
  · exact Act.moves_pure _ _
  · rw [drawLines_concat]
    exact moves_drawThen (.lines h init z)

theorem moves_drawCubics {c : Canvas σ α} (h : c.pen.isOpen) (cs : List (CubicTo α)) :
    Act.Moves (Drawing stops) (drawCubics cs) c := by
  rcases List.eq_nil_or_concat' cs with rfl | ⟨init, z, rfl⟩
  · exact Act.moves_pure _ _
  · rw [drawCubics_concat]
    exact moves_drawThen (.cubics h init z)

theorem moves_drawQuadratics {c : Canvas σ α} (h : c.pen.isOpen) (qs : List (QuadraticTo α)) :
    Act.Moves (Drawing stops) (drawQuadratics qs) c := by
  rcases List.eq_nil_or_concat' qs with rfl | ⟨init, z, rfl⟩
  · exact Act.moves_pure _ _
  · rw [drawQuadratics_concat]
    exact moves_drawThen (.quadratics h init z)

theorem moves_moveTo (z : Point α) (c : Canvas σ α) : Act.Moves (Drawing stops) (moveTo z) c :=
  moves_draw_movePen (.start z)

theorem moves_ensureOpenAt (z : Point α) (c : Canvas σ α) :
    Act.Moves (Drawing stops) (ensureOpenAt z) c := by
  cases h : c.pen.isOpen with
  | true => exact Act.moves_of_reads (run_ensureOpenAt_of_open h)
  | false =>
    cases ha : c.autoOpen with
    | false => exact Act.moves_of_reads (run_ensureOpenAt_of_strict h ha)
    | true =>
      apply Act.moves_of_step
      rw [run_ensureOpenAt_of_closed h ha]
      rcases hs : Surface.performAll [.moveTo z] c.surface with ⟨w, e, s⟩
      cases e with
      | none =>
        rw [run_drawCalls_ok (c := { c with pen := c.pen.openAt z }) hs]
        exact .drawn (.start z) hs
      | some e =>
        rw [run_drawCalls_error (c := { c with pen := c.pen.openAt z }) hs]
        exact .ahead h hs

theorem moves_bind_ensureOpenAt {β : Type} {z : Point α} {m : Act (Canvas σ α) β}
    {c : Canvas σ α} (hm : ∀ t : Canvas σ α, t.pen.isOpen → Act.Moves (Drawing stops) m t) :
    Act.Moves (Drawing stops) (ensureOpenAt z >>= fun _ => m) c :=
  Act.moves_bind (moves_ensureOpenAt z c) fun _ t ht => hm t (isOpen_of_ensureOpenAt ht)

omit [Scalar α] [Surface σ α] in
theorem moves_bind_requireCurrent {β : Type} {f : Point α → Act (Canvas σ α) β} {c : Canvas σ α}
    {r : Canvas σ α → Canvas σ α → Prop}
    (hf : ∀ z, c.pen.current = some z → Act.Moves r (f z) c) :
    Act.Moves r (requireCurrent >>= f) c :=
  Act.moves_bind_of_reads (run_requireCurrent c) fun z h => hf z (Pen.current_of_requireCurrent h)

omit [Scalar α] [Surface σ α] in
theorem moves_bind_requireOpen {β : Type} {f : Point α → Act (Canvas σ α) β} {c : Canvas σ α}
    {r : Canvas σ α → Canvas σ α → Prop} (hf : ∀ z, c.pen.isOpen → Act.Moves r (f z) c) :
    Act.Moves r (requireCurrent >>= f) c :=
  moves_bind_requireCurrent fun z hz => hf z (Pen.isOpen_iff.mpr ⟨z, hz⟩)

theorem moves_lineThrough (zs : List (Point α)) (c : Canvas σ α) :
    Act.Moves (Drawing stops) (lineThrough zs) c := by
  cases zs with
  | nil => exact Act.moves_pure _ _
  | cons z rest =>
    apply moves_bind_ensureOpenAt
    intro t ht
    exact moves_drawLines ht _

theorem moves_line (relative : Bool) (as : List (Argument α)) (c : Canvas σ α) :
    Act.Moves (Drawing stops) (line relative as) c := by
  cases relative with
  | true =>
    apply moves_bind_requireOpen
    intro _ ho
    apply Act.moves_bind_ofExcept
    intro zs _
    exact moves_drawLines ho _
  | false =>
    apply Act.moves_bind_ofExcept
    intro zs _
    exact moves_lineThrough zs c

theorem moves_move (relative : Bool) (as : List (Argument α)) (c : Canvas σ α) :
    Act.Moves (Drawing stops) (move relative as) c := by
  rw [move.eq_def]
  split
  · next x y rest =>
    apply Act.moves_bind_ofExcept
    intro z _
    apply Act.moves_bind_get
    apply Act.moves_bind (moves_moveTo _ c)
    intro _ t _
    split
    · exact Act.moves_pure _ _
    · exact moves_line relative rest t
  · exact Act.moves_pure _ _

theorem moves_cubic (relative : Bool) (as : List (Argument α)) (c : Canvas σ α) :
    Act.Moves (Drawing stops) (cubic relative as) c := by
  cases relative with
  | true =>
    apply moves_bind_requireOpen
    intro _ ho
    apply Act.moves_bind_ofExcept
    intro zs _
    exact moves_drawCubics ho _
  | false =>
    apply Act.moves_bind_ofExcept
    intro zs _
    cases zs with
    | nil => exact Act.moves_pure _ _
    | cons z rest =>
      apply moves_bind_ensureOpenAt
      intro t ht
      exact moves_drawCubics ht _

theorem moves_quadratic (relative : Bool) (as : List (Argument α)) (c : Canvas σ α) :
    Act.Moves (Drawing stops) (quadratic relative as) c := by
  cases relative with
  | true =>
    apply moves_bind_requireOpen
    intro _ ho
    apply Act.moves_bind_ofExcept
    intro zs _
    exact moves_drawQuadratics ho _
  | false =>
    apply Act.moves_bind_ofExcept
    intro zs _
    cases zs with
    | nil => exact Act.moves_pure _ _
    | cons z rest =>
      apply moves_bind_ensureOpenAt
      intro t ht
      exact moves_drawQuadratics ht _

omit [Scalar α] [Surface σ α] in
theorem moves_bind_requireControl {β : Type} {curve : Curve} {f : Point α → Act (Canvas σ α) β}
    {c : Canvas σ α} {r : Canvas σ α → Canvas σ α → Prop}
    (hf : ∀ z, Act.Moves r (f z) c) : Act.Moves r (requireControl curve >>= f) c := by
  cases h : c.pen.control curve with
  | none =>
    have hm := run_requireControl_of_none h
    exact Act.moves_bind_of_reads hm fun z _ => hf z
  | some z =>
    have hm := run_requireControl_of_some h
    exact Act.moves_bind_of_reads hm fun z _ => hf z

theorem moves_smoothCubic (relative : Bool) (as : List (Argument α)) (c : Canvas σ α) :
    Act.Moves (Drawing stops) (smoothCubic relative as) c :=
  moves_bind_requireControl fun _ => moves_bind_requireOpen fun _ ho =>
    Act.moves_bind_ofExcept fun _ _ => moves_drawCubics ho _

theorem moves_smoothQuadratic (relative : Bool) (as : List (Argument α)) (c : Canvas σ α) :
    Act.Moves (Drawing stops) (smoothQuadratic relative as) c :=
  moves_bind_requireControl fun _ => moves_bind_requireOpen fun _ ho =>
    Act.moves_bind_ofExcept fun _ _ => moves_drawQuadratics ho _

theorem moves_drawCalls_walk {c : Canvas σ α} (ho : c.pen.isOpen) (step : Point α → α → Point α)
    (z : Point α) (x : α) (xs : List α) (h : stops) :
    Act.Moves (Drawing stops) (drawCalls ((walk step z (x :: xs)).map .lineTo)) c := by
  obtain hw | ⟨init, w, hw⟩ := List.eq_nil_or_concat' (walk step z (x :: xs))
  · simp [walk] at hw
  apply Act.moves_of_step
  rw [hw]
  rcases hs : Surface.performAll ((init ++ [w]).map .lineTo) c.surface with ⟨ws, e, s⟩
  cases e with
  | none =>
    rw [run_drawCalls_ok hs]
    exact .stopped h ho hs
  | some e =>
    rw [run_drawCalls_error hs]
    exact .refused (.lines ho init w) hs

theorem moves_axisLine (step : Point α → α → Point α) (as : List (Argument α)) (c : Canvas σ α)
    (h : (∃ e, Argument.reals as = .error e) → Argument.readable as ≠ [] → stops) :
    Act.Moves (Drawing stops) (axisLine step as) c := by
  apply moves_bind_requireOpen
  intro z ho
  rcases hr : Argument.reals as with e | xs
  · rw [drawAlong_of_error step z hr]
    refine Act.moves_bind ?_ fun _ t _ => Act.moves_throw e t
    rcases hp : Argument.readable as with _ | ⟨x, xs⟩
    · exact Act.moves_pure _ _
    · exact moves_drawCalls_walk ho step z x xs (h ⟨e, hr⟩ (by simp [hp]))
  · rw [drawAlong_of_reals step z hr]
    exact moves_drawLines ho _

theorem moves_arcSegment (a : ArcTo (Argument α)) (finish : Point α) (c : Canvas σ α) :
    Act.Moves (Drawing stops) (arcSegment a finish) c := by
  rw [arcSegment]
  split
  · exact moves_lineThrough [finish] c
  apply moves_bind_requireCurrent
  intro z hz
  split
  · next he => exact Act.moves_of_step (.drawn (.omitted hz finish he) rfl)
  · apply Act.moves_bind_ofExcept
    intro request hq
    apply Act.moves_bind_ofExcept
    intro arc ha
    rw [← ArcTo.finish_of_request hq]
    exact moves_draw_movePen (.arc hz request ha)

theorem moves_arcs (relative : Bool) (as : List (ArcTo (Argument α))) (c : Canvas σ α) :
    Act.Moves (Drawing stops) (arcs relative as) c := by
  induction as generalizing c with
  | nil => exact Act.moves_pure _ _
  | cons a rest ih =>
    cases relative with
    | true =>
      exact moves_bind_requireCurrent fun z _ => Act.moves_bind_ofExcept fun offset _ =>
        Act.moves_bind (moves_arcSegment a (z + offset) c) fun _ t _ => ih t
    | false =>
      exact Act.moves_bind_ofExcept fun finish _ =>
        Act.moves_bind (moves_arcSegment a finish c) fun _ t _ => ih t

theorem moves_close (c : Canvas σ α) : Act.Moves (Drawing stops) close c :=
  moves_draw_movePen .close

theorem moves_carryOut (k : Command) (as : List (Argument α)) (c : Canvas σ α)
    (h : (Op.command k as).BreaksOff → stops) :
    Act.Moves (Drawing stops) (carryOut k as) c := by
  have hs : k.verb = .horizontal ∨ k.verb = .vertical →
      (∃ e, Argument.reals as = .error e) → Argument.readable as ≠ [] → stops := by
    intro hv ⟨e, he⟩ hr
    cases as with
    | nil => exact absurd rfl hr
    | cons a rest =>
      rcases Argument.reals_cons_error he with ha | ⟨x, ha, hrest⟩
      · exact absurd (Argument.readable_cons_error ha rest) hr
      · exact h ⟨hv, ⟨x, ha⟩, e, hrest⟩
  rw [carryOut]
  split
  · exact moves_move _ _ _
  · exact moves_line _ _ _
  · next hv => exact moves_axisLine _ _ _ (hs (.inl hv))
  · next hv => exact moves_axisLine _ _ _ (hs (.inr hv))
  · exact moves_cubic _ _ _
  · exact moves_smoothCubic _ _ _
  · exact moves_quadratic _ _ _
  · exact moves_smoothQuadratic _ _ _
  · exact moves_arcs _ _ _
  · exact moves_close _

theorem moves_command (k : Command) (as : List (Argument α)) (c : Canvas σ α)
    (h : (Op.command k as).BreaksOff → stops) :
    Act.Moves (Drawing stops) (command k as) c := by
  rw [command]
  split
  · exact moves_carryOut k as c h
  · exact Act.moves_throw _ _

theorem moves_elements (es : List (Element α)) (c : Canvas σ α) :
    Act.Moves (Drawing stops) (elements es) c := by
  induction es generalizing c with
  | nil => exact Act.moves_pure _ _
  | cons e rest ih =>
    exact Act.moves_bind (moves_command _ _ c fun h => absurd h (Op.not_breaksOff_ofNumbers _ _))
      fun _ t _ => ih t

theorem moves_path (text : String) (c : Canvas σ α) :
    Act.Moves (Drawing stops) (path text) c :=
  Act.moves_bind_ofExcept fun es _ => moves_elements es c

theorem moves_oval (request : OvalRequest α) (c : Canvas σ α) :
    Act.Moves (Drawing stops) (oval request) c := by
  apply Act.moves_bind_get
  apply Act.moves_bind_ofExcept
  intro r _
  apply Act.moves_bind_ofExcept
  intro radii hr
  split
  · exact Act.moves_throw _ _
  next hn =>
  rw [Bool.or_eq_true, not_or, Bool.not_eq_true, Bool.not_eq_true] at hn
  apply Act.moves_bind_ofExcept
  intro o ho
  apply Act.moves_bind_ofExcept
  intro arc ha
  split
  · next h => exact moves_draw_movePen (.oval h r hr hn.1 hn.2 ho ha)
  · exact Act.moves_bind (moves_moveTo arc.start c) fun _ t ht =>
      moves_draw_movePen (.oval (isOpen_of_moveTo ht) r hr hn.1 hn.2 ho ha)

theorem moves_roundedCorner (p1 p2 : Point (Argument α)) (r : Argument α) (c : Canvas σ α) :
    Act.Moves (Drawing stops) (roundedCorner p1 p2 r) c := by
  apply Act.moves_bind_ofExcept
  intro radius hr
  split
  · exact Act.moves_throw _ _
  next hn =>
  apply Act.moves_bind_ofExcept
  intro q1 _
  apply Act.moves_bind_ofExcept
  intro q2 _
  apply moves_bind_ensureOpenAt
  intro t hto
  obtain ⟨p0, hp⟩ := Pen.isOpen_iff.mp hto
  apply Act.moves_bind_get
  apply Act.moves_bind_ofExcept
  intro fillet hf
  rw [hp, Option.getD_some] at hf
  cases fillet with
  | none => exact moves_drawLines hto [q1]
  | some f =>
    have hd : Act.Moves (Drawing stops)
        (drawThen [.lineTo f.start, f.call r] fun p => p.moveTo f.finish) t :=
      moves_drawThen (.corner hp q1 q2 hr (by simpa using hn) hf)
    rwa [drawThen_cons, drawThen_singleton] at hd

end Canvas

end Linework
