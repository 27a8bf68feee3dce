import Mathlib
import Linework.Proofs.Canvas.Coherence
import Linework.Proofs.Canvas.Recorded

/-!
# The pen and the recorded path

The trail of a recording is the path that it holds: the path calls since the pen was last lifted.
The pen's start is always that of the latest move of the trail. The current point is where the
latest call of the trail leads, except after a walk along an axis that broke off: its lines are
drawn, but the pen has not followed them.
-/

set_option autoImplicit false

namespace Linework

/-- The path calls since the last call that lifts the pen, the latest first. -/
def Recording.trail {α : Type} (r : Recording α) : List (Call α) :=
  (r.backwards.takeWhile fun k => !k.primitive.lifts).filter fun k => k.primitive.isPath

/-- Where a call of a path leads: to its last two coordinates, or back to the start. An ellipse
does not say. -/
def Call.landing? {α : Type} (start : Point α) (k : Call α) : Option (Point α) :=
  match k.primitive, k.arguments.reverse with
  | .ellipse, _ => none
  | .closePath, _ => some start
  | _, .number y :: .number x :: _ => some ⟨x, y⟩
  | _, _ => none

/-- Points that are identical or compare equal. The zeros compare equal, and what is no number is
identical to itself only. -/
def Point.Same {α : Type} [Scalar α] (p q : Point α) : Prop := p = q ∨ p.beq q

section Trail

variable {α : Type}

theorem Recording.trail_lifted {k : Call α} (h : k.primitive.lifts) (r : Recording α) :
    (r.recordAll [k]).trail = [] := by
  simp [trail, recordAll, h]

theorem Recording.trail_path {calls : List (Call α)} (h : ∀ k ∈ calls, k.primitive.isPath)
    (r : Recording α) : (r.recordAll calls).trail = calls.reverse ++ r.trail := by
  have hl : ∀ k ∈ calls.reverse, !k.primitive.lifts := fun k hk => by
    rw [Primitive.lifts_of_isPath (h k (List.mem_reverse.mp hk))]
    rfl
  have hp : ∀ k ∈ calls.reverse, k.primitive.isPath := fun k hk => h k (List.mem_reverse.mp hk)
  rw [trail, recordAll, List.takeWhile_append_of_pos hl, List.filter_append,
    List.filter_eq_self.mpr hp]
  rfl

theorem Recording.trail_neutral {calls : List (Call α)}
    (h : ∀ k ∈ calls, k.primitive.isNeutral) (r : Recording α) :
    (r.recordAll calls).trail = r.trail := by
  have hl : ∀ k ∈ calls.reverse, !k.primitive.lifts := fun k hk => by
    rw [(Primitive.isNeutral_iff.mp (h k (List.mem_reverse.mp hk))).2]
    rfl
  have hp : ∀ k ∈ calls.reverse, ¬ k.primitive.isPath := fun k hk => by
    rw [(Primitive.isNeutral_iff.mp (h k (List.mem_reverse.mp hk))).1]
    simp
  rw [trail, recordAll, List.takeWhile_append_of_pos hl, List.filter_append,
    List.filter_eq_nil_iff.mpr hp]
  rfl

end Trail

namespace Pen.Draws

variable {α : Type} [Scalar α] {p q : Pen α} {calls : List (Call α)}

theorem start_cases (h : p.Draws calls q) :
    (∃ z, calls = [.moveTo z] ∧ q.start = some z) ∨
      ((∀ k ∈ calls, k.primitive ≠ .moveTo) ∧ q.start = p.start) := by
  cases h with
  | start z => exact .inl ⟨z, rfl, rfl⟩
  | lines ho zs z | cubics ho cs c | quadratics ho qs q =>
    refine .inr ⟨fun k hk => ?_, by simp⟩
    obtain ⟨_, -, rfl⟩ := List.mem_map.mp hk
    rintro ⟨⟩
  | arc hz request ha | oval ho r hr hx hy hq ha =>
    refine .inr ⟨fun k hk => ?_, rfl⟩
    rw [List.mem_singleton.mp hk]
    rintro ⟨⟩
  | omitted hz finish he => exact .inr ⟨by simp, rfl⟩
  | corner hz p1 p2 hr hx hf =>
    refine .inr ⟨fun k hk => ?_, rfl⟩
    rcases List.mem_pair.mp hk with rfl | rfl <;> rintro ⟨⟩
  | close =>
    refine .inr ⟨fun k hk => ?_, ?_⟩
    · rw [List.mem_singleton.mp hk]
      rintro ⟨⟩
    · cases hs : p.start with
      | none => rw [close_of_none hs, lift_start]
      | some z => rw [close_of_start hs, moveTo_start, hs]

theorem lands (h : p.Draws calls q) (hne : calls ≠ []) :
    ∃ init k, calls = init ++ [k] ∧ ∀ s, q.start = some s → k.primitive ≠ .ellipse →
      ∃ z, k.landing? s = some z ∧ q.current = some z := by
  cases h with
  | start z => exact ⟨[], .moveTo z, rfl, fun s _ _ => ⟨z, rfl, rfl⟩⟩
  | lines ho zs z =>
    exact ⟨zs.map .lineTo, .lineTo z, by simp, fun s _ _ => ⟨z, rfl, rfl⟩⟩
  | cubics ho cs c =>
    exact ⟨cs.map CubicTo.call, c.call, by simp, fun s _ _ => ⟨c.finish, rfl, rfl⟩⟩
  | quadratics ho qs q =>
    exact ⟨qs.map QuadraticTo.call, q.call, by simp, fun s _ _ => ⟨q.finish, rfl, rfl⟩⟩
  | arc hz request ha => exact ⟨[], _, rfl, fun s _ he => absurd rfl he⟩
  | omitted hz finish he => exact absurd rfl hne
  | oval ho r hr hx hy hq ha => exact ⟨[], _, rfl, fun s _ he => absurd rfl he⟩
  | @corner z hz p1 p2 r x f hr hx hf =>
    exact ⟨[.lineTo f.start], f.call r, rfl, fun s _ he => absurd rfl he⟩
  | close =>
    refine ⟨[], .closePath, rfl, fun s hs _ => ⟨s, rfl, ?_⟩⟩
    cases hp : p.start with
    | none =>
      rw [close_of_none hp] at hs
      cases hs
    | some z =>
      rw [close_of_start hp, moveTo_start, hp] at hs
      rw [close_of_start hp, moveTo_current, hs]

theorem of_nil (h : p.Draws [] q) :
    ∃ z finish, p.current = some z ∧ z.beq finish ∧ q = p.moveTo finish := by
  generalize hc : ([] : List (Call α)) = calls at h
  cases h with
  | omitted hz finish he => exact ⟨_, finish, hz, he, rfl⟩
  | lines ho zs z | cubics ho cs c | quadratics ho qs q => simp at hc
  | start z | arc hz request ha | oval ho r hr hx hy hq ha | close => cases hc
  | corner hz p1 p2 hr hx hf => cases hc

end Pen.Draws

namespace Point.Same

theorem refl {α : Type} [Scalar α] (p : Point α) : p.Same p := .inl rfl

theorem symm {p q : Point Float} (h : p.Same q) : q.Same p := by
  rcases h with rfl | h
  · exact refl p
  · rw [beq, Bool.and_eq_true] at h
    refine .inr ?_
    rw [beq, Bool.and_eq_true]
    exact ⟨PartialEquivBEq.symm h.1, PartialEquivBEq.symm h.2⟩

theorem trans {p q r : Point Float} (h : p.Same q) (h' : q.Same r) : p.Same r := by
  rcases h with rfl | h
  · exact h'
  rcases h' with rfl | h'
  · exact .inr h
  · rw [beq, Bool.and_eq_true] at h h'
    refine .inr ?_
    rw [beq, Bool.and_eq_true]
    exact ⟨PartialEquivBEq.trans h.1 h'.1, PartialEquivBEq.trans h.2 h'.2⟩

end Point.Same

namespace Canvas

section Start

variable {α : Type}

/-- The pen's start is that of the latest move of the trail, and there is none without one. -/
def StartRecorded (c : Canvas (Recording α) α) : Prop :=
  c.surface.trail.find? (fun k => k.primitive == .moveTo) = c.pen.start.map Call.moveTo

/-- The pen's current point is where the latest call of the trail leads. -/
def CurrentRecorded [Scalar α] (c : Canvas (Recording α) α) : Prop :=
  ∀ s k, c.pen.start = some s → c.surface.trail.head? = some k → k.primitive ≠ .ellipse →
    ∃ w z, k.landing? s = some w ∧ c.pen.current = some z ∧ w.Same z

variable {c t : Canvas (Recording α) α}

theorem startRecorded_of_path {calls : List (Call α)} (h : StartRecorded c)
    (hk : ∀ k ∈ calls, k.primitive.isPath) (hn : ∀ k ∈ calls, k.primitive ≠ .moveTo)
    (hs : t.surface = c.surface.recordAll calls) (hp : t.pen.start = c.pen.start) :
    StartRecorded t := by
  have hf : calls.reverse.find? (fun k => k.primitive == .moveTo) = none := by
    simpa using hn
  rw [StartRecorded, hs, Recording.trail_path hk, List.find?_append, hf, Option.none_or, hp]
  exact h

theorem startRecorded_drawing [Scalar α] {stops : Prop} (hd : Drawing stops c t)
    (h : StartRecorded c) : StartRecorded t := by
  obtain ⟨calls, q, hp, hs, hpen⟩ := recorded_of_drawing hd
  have hstart : t.pen.start = q.start := by
    rcases hpen with rfl | ⟨-, -, hpen, hq⟩
    · rfl
    · rw [hpen, hq]
  rcases hp.start_cases with ⟨z, rfl, hz⟩ | ⟨hn, hq⟩
  · rw [StartRecorded, hs, Recording.trail_path hp.isPath, hstart, hz]
    rfl
  · exact startRecorded_of_path h hp.isPath hn hs (hstart.trans hq)

theorem startRecorded_turn (ht : Turn c t) (h : StartRecorded c) : StartRecorded t := by
  cases recorded_of_turn ht with
  | neutral calls hk hs hc hp =>
    rw [StartRecorded, hs, Recording.trail_neutral hk, hp]
    exact h
  | lifted k hk hs hp =>
    rw [StartRecorded, hs, Recording.trail_lifted hk, hp]
    rfl
  | cleared unit hs hp =>
    rw [StartRecorded, hs, hp]
    rfl

structure Mirrors (c : Canvas (Recording α) α) : Prop where
  coherent : c.pen.Coherent
  start : StartRecorded c

theorem mirrors_fresh (autoOpen : Bool) (unit : AngleUnit) :
    Mirrors (fresh .empty autoOpen unit : Canvas (Recording α) α) :=
  ⟨.fresh unit, rfl⟩

theorem mirrors_step [Scalar α] (op : Op α) (c : Canvas (Recording α) α) (h : Mirrors c) :
    Mirrors (step op c).2 :=
  step_keeps (P := Mirrors)
    (fun hd h => ⟨coherent_drawing hd h.coherent, startRecorded_drawing hd h.start⟩)
    (fun ht h => ⟨coherent_turn ht h.coherent, startRecorded_turn ht h.start⟩) op c h

end Start

section Current

variable {α : Type} [Scalar α] {c t : Canvas (Recording α) α}

theorem currentRecorded_of_nil (h : t.surface.trail = []) : CurrentRecorded t := by
  intro s k _ hk
  rw [h] at hk
  cases hk

theorem currentRecorded_of_cons {k : Call α} {rest : List (Call α)}
    (h : t.surface.trail = k :: rest)
    (hk : ∀ s, t.pen.start = some s → k.primitive ≠ .ellipse →
      ∃ w z, k.landing? s = some w ∧ t.pen.current = some z ∧ w.Same z) : CurrentRecorded t := by
  intro s l hs hl hne
  rw [h, List.head?_cons] at hl
  cases hl
  exact hk s hs hne

/-- Of two canvases the second one has gone further along the trail and is right about it, or has
not and is right if the first one is. -/
def Follows (c t : Canvas (Recording α) α) : Prop :=
  (t.surface.trail = c.surface.trail ∧ (CurrentRecorded c ↔ CurrentRecorded t)) ∨
    (c.surface.trail.length < t.surface.trail.length ∧ CurrentRecorded t)

theorem Follows.refl (c : Canvas (Recording α) α) : Follows c c := .inl ⟨rfl, Iff.rfl⟩

theorem Follows.trans {d : Canvas (Recording α) α} (h : Follows c d) (h' : Follows d t) :
    Follows c t := by
  rcases h with ⟨htrail, hiff⟩ | ⟨hlt, hd⟩
  · rcases h' with ⟨htrail', hiff'⟩ | ⟨hlt', ht⟩
    · exact .inl ⟨htrail'.trans htrail, hiff.trans hiff'⟩
    · exact .inr ⟨htrail ▸ hlt', ht⟩
  · rcases h' with ⟨htrail', hiff'⟩ | ⟨hlt', ht⟩
    · exact .inr ⟨htrail' ▸ hlt, hiff'.mp hd⟩
    · exact .inr ⟨Nat.lt_trans hlt hlt', ht⟩

end Current

section Doubles

variable {c t : Canvas (Recording Float) Float}

theorem currentRecorded_congr (htrail : t.surface.trail = c.surface.trail)
    (hstart : t.pen.start = c.pen.start) {y z : Point Float} (hc : c.pen.current = some y)
    (ht : t.pen.current = some z) (hyz : y.Same z) (h : CurrentRecorded c) :
    CurrentRecorded t := by
  intro s k hs hk hne
  rw [hstart] at hs
  rw [htrail] at hk
  obtain ⟨w, y', hw, hy', hwy⟩ := h s k hs hk hne
  rw [hc] at hy'
  cases hy'
  exact ⟨w, z, hw, ht, hwy.trans hyz⟩

theorem follows_drawing {stops : Prop} (hn : ¬ stops) (hd : Drawing stops c t) : Follows c t := by
  obtain ⟨calls, q, hp, hs, hpen⟩ := recorded_of_drawing hd
  have hq : t.pen = q := hpen.resolve_right fun h => hn h.1
  subst hq
  by_cases hne : calls = []
  · subst hne
    obtain ⟨z, finish, hz, he, hpen⟩ := hp.of_nil
    have htrail : t.surface.trail = c.surface.trail := by rw [hs]; rfl
    have hstart : t.pen.start = c.pen.start := by rw [hpen, Pen.moveTo_start]
    have hcurrent : t.pen.current = some finish := by rw [hpen, Pen.moveTo_current]
    exact .inl ⟨htrail, currentRecorded_congr htrail hstart hz hcurrent (.inr he),
      currentRecorded_congr htrail.symm hstart.symm hcurrent hz (Point.Same.symm (.inr he))⟩
  · obtain ⟨init, k, rfl, hk⟩ := hp.lands hne
    have htrail : t.surface.trail = k :: (init.reverse ++ c.surface.trail) := by
      rw [hs, Recording.trail_path hp.isPath, List.reverse_concat, List.cons_append]
    have hlonger : c.surface.trail.length < t.surface.trail.length := by
      rw [htrail, List.length_cons, List.length_append]
      omega
    have hcurrent : CurrentRecorded t := by
      apply currentRecorded_of_cons htrail
      intro s hstart he
      obtain ⟨z, hz, hq⟩ := hk s hstart he
      exact ⟨z, z, hz, hq, .refl z⟩
    exact .inr ⟨hlonger, hcurrent⟩

end Doubles

end Canvas

end Linework
