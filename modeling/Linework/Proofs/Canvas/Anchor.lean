import Linework.Proofs.Canvas.Recorded
import Linework.Proofs.Plane.Radii

/-!
# Lines and curves are anchored

A line, a curve or an ellipse goes on from where a subpath has got to. In the list of all calls
that a canvas has made, each of them comes after a move, with nothing in between that would drop
the path or change the coordinates; and no ellipse has a radius below zero.
-/

set_option autoImplicit false

namespace Linework

def Primitive.goesOn : Primitive → Bool
  | lineTo | cubicTo | quadraticTo | ellipse => true
  | _ => false

theorem Primitive.not_goesOn_of_isNeutral {p : Primitive} (h : p.isNeutral) :
    p.goesOn = false := by
  revert h
  cases p <;> decide

theorem Primitive.not_goesOn_of_lifts {p : Primitive} (h : p.lifts) : p.goesOn = false := by
  revert h
  cases p <;> decide

def Call.radii? {α : Type} (k : Call α) : Option (Point (Argument α)) :=
  match k.arguments with
  | [_, _, rx, ry, _, _, _, _] => some ⟨rx, ry⟩
  | _ => none

def Call.HasRadii {α : Type} [Scalar α] (k : Call α) : Prop :=
  ∃ a r, k.radii? = some a ∧ Argument.point a = .ok r ∧ r.NotBelowZero

/-- After these calls a subpath is open in the coordinates in force: they have a move after which
none of them lifts the pen. -/
def OpenAfter {α : Type} (calls : List (Call α)) : Prop :=
  ∃ early m between, calls = early ++ m :: between ∧ m.primitive = .moveTo ∧
    ∀ k ∈ between, k.primitive.lifts = false

/-- Calls in which whatever goes on from a subpath finds one open. -/
def Anchored {α : Type} (calls : List (Call α)) : Prop :=
  ∀ before k after, calls = before ++ k :: after → k.primitive.goesOn → OpenAfter before

section Calls

variable {α : Type} {xs : List (Call α)}

theorem openAfter_concat_move (xs : List (Call α)) (z : Point α) :
    OpenAfter (xs ++ [.moveTo z]) :=
  ⟨xs, .moveTo z, [], rfl, rfl, by simp⟩

theorem OpenAfter.append (h : OpenAfter xs) {ks : List (Call α)}
    (hk : ∀ k ∈ ks, k.primitive.lifts = false) : OpenAfter (xs ++ ks) := by
  obtain ⟨early, m, between, rfl, hm, hb⟩ := h
  refine ⟨early, m, between ++ ks, by simp, hm, fun k hmem => ?_⟩
  rcases List.mem_append.mp hmem with h | h
  · exact hb k h
  · exact hk k h

theorem anchored_nil : Anchored ([] : List (Call α)) := by
  intro before k after h
  simp at h

theorem Anchored.concat (h : Anchored xs) {k : Call α} (hk : k.primitive.goesOn → OpenAfter xs) :
    Anchored (xs ++ [k]) := by
  intro before l after heq hl
  rcases List.eq_nil_or_concat' after with rfl | ⟨after, last, rfl⟩
  · obtain ⟨rfl, hkl⟩ := List.append_inj' heq rfl
    cases hkl
    exact hk hl
  · have hx : (xs ++ [k]) = (before ++ l :: after) ++ [last] := by simpa using heq
    obtain ⟨rfl, -⟩ := List.append_inj' hx rfl
    exact h before l after rfl hl

theorem Anchored.append (h : Anchored xs) {ks : List (Call α)}
    (hk : ∀ k ∈ ks, k.primitive.goesOn → OpenAfter xs)
    (hl : ∀ k ∈ ks, k.primitive.lifts = false) : Anchored (xs ++ ks) := by
  induction ks generalizing xs with
  | nil => simpa using h
  | cons k rest ih =>
    have hfirst := h.concat (hk k List.mem_cons_self)
    have hrest : ∀ l ∈ rest, l.primitive.goesOn → OpenAfter (xs ++ [k]) := by
      intro l hmem hg
      refine (hk l (List.mem_cons_of_mem k hmem) hg).append fun m hm => ?_
      rw [List.mem_singleton.mp hm]
      exact hl k List.mem_cons_self
    have := ih hfirst hrest fun l hmem => hl l (List.mem_cons_of_mem k hmem)
    rwa [List.append_assoc] at this

end Calls

namespace Pen.Draws

variable {α : Type} [Scalar α] {p q : Pen α} {calls : List (Call α)}

theorem open_of_goesOn (h : p.Draws calls q) {k : Call α} (hk : k ∈ calls)
    (hg : k.primitive.goesOn) : p.isOpen := by
  rcases h.isOpen_cases with ho | ⟨z, rfl, -⟩ | ⟨rfl, -⟩
  · exact ho
  · rw [List.mem_singleton.mp hk] at hg
    cases hg
  · rw [List.mem_singleton.mp hk] at hg
    cases hg

theorem openAfter (h : p.Draws calls q) {xs : List (Call α)}
    (hp : p.isOpen ∨ p.start ≠ none → OpenAfter xs) (hq : q.isOpen ∨ q.start ≠ none) :
    OpenAfter (xs ++ calls) := by
  have hl : ∀ k ∈ calls, k.primitive.lifts = false := fun k hk =>
    Primitive.lifts_of_isPath (h.isPath k hk)
  rcases h.isOpen_cases with ho | ⟨z, rfl, -⟩ | ⟨rfl, rfl⟩
  · exact (hp (.inl ho)).append hl
  · exact openAfter_concat_move xs z
  · cases hs : p.start with
    | none =>
      rw [close_of_none hs] at hq
      simp [isOpen] at hq
    | some z =>
      have hstart : p.start ≠ none := by simp [hs]
      exact (hp (.inr hstart)).append hl

end Pen.Draws

theorem Pen.Draws.hasRadii {p q : Pen Float} {calls : List (Call Float)} (h : p.Draws calls q)
    {k : Call Float} (hk : k ∈ calls) (he : k.primitive = .ellipse) : k.HasRadii := by
  cases h with
  | start z | close =>
    rw [List.mem_singleton.mp hk] at he
    cases he
  | lines ho zs z | cubics ho cs c | quadratics ho qs q =>
    obtain ⟨_, -, rfl⟩ := List.mem_map.mp hk
    cases he
  | omitted hz finish hb => cases hk
  | @arc z hz request a ha =>
    rw [List.mem_singleton.mp hk]
    exact ⟨_, a.ellipse.radii, rfl, rfl, EndpointArc.toArc_radii_notBelowZero ha⟩
  | @oval ho r radii o a hr hx hy hq ha =>
    rw [List.mem_singleton.mp hk]
    exact ⟨r.radii, radii, rfl, hr, hx, hy⟩
  | @corner z hz p1 p2 r x f hr hx hf =>
    rcases List.mem_pair.mp hk with rfl | rfl
    · cases he
    · refine ⟨⟨r, r⟩, ⟨x, x⟩, rfl, ?_, hx, hx⟩
      rw [Argument.point, hr]
      rfl

namespace Canvas

/-- What a canvas on a recording keeps: its calls are anchored, and while there is a path, the pen
down or a start to go back to, a subpath is open after them. -/
structure Anchoring {α : Type} (c : Canvas (Recording α) α) : Prop where
  anchored : Anchored c.surface.calls
  subpath : c.pen.isOpen ∨ c.pen.start ≠ none → OpenAfter c.surface.calls

section Keeps

variable {α : Type} {c t : Canvas (Recording α) α}

theorem anchoring_drawing [Scalar α] {stops : Prop} (hd : Drawing stops c t) (h : Anchoring c) :
    Anchoring t := by
  obtain ⟨calls, q, hp, hs, hpen⟩ := recorded_of_drawing hd
  have hl : ∀ k ∈ calls, k.primitive.lifts = false := fun k hk =>
    Primitive.lifts_of_isPath (hp.isPath k hk)
  have hopen : t.pen.isOpen ∨ t.pen.start ≠ none → OpenAfter (c.surface.calls ++ calls) := by
    intro ho
    rcases hpen with rfl | ⟨-, hc, -, -⟩
    · exact hp.openAfter h.subpath ho
    · exact (h.subpath (.inl hc)).append hl
  constructor
  · rw [hs, Recording.calls_recordAll]
    exact h.anchored.append (fun k hk hg => h.subpath (.inl (hp.open_of_goesOn hk hg))) hl
  · rw [hs, Recording.calls_recordAll]
    exact hopen

theorem anchoring_turn (ht : Turn c t) (h : Anchoring c) : Anchoring t := by
  cases recorded_of_turn ht with
  | neutral calls hk hs hc hp =>
    have hl : ∀ k ∈ calls, k.primitive.lifts = false := fun k hmem =>
      (Primitive.isNeutral_iff.mp (hk k hmem)).2
    constructor
    · rw [hs, Recording.calls_recordAll]
      refine h.anchored.append (fun k hmem hg => ?_) hl
      rw [Primitive.not_goesOn_of_isNeutral (hk k hmem)] at hg
      cases hg
    · rw [hs, Recording.calls_recordAll, hp, Pen.isOpen, hc]
      exact fun ho => (h.subpath ho).append hl
  | lifted k hk hs hp =>
    constructor
    · rw [hs, Recording.calls_recordAll]
      refine h.anchored.concat fun hg => ?_
      rw [Primitive.not_goesOn_of_lifts hk] at hg
      cases hg
    · rw [hp]
      simp [Pen.isOpen]
  | cleared unit hs hp =>
    constructor
    · rw [hs]
      exact anchored_nil
    · rw [hp]
      simp [Pen.isOpen, Pen.fresh]

end Keeps

def RadiiFit (calls : List (Call Float)) : Prop :=
  ∀ k ∈ calls, k.primitive = .ellipse → k.HasRadii

section Radii

variable {c t : Canvas (Recording Float) Float}

theorem radiiFit_append {xs ks : List (Call Float)} (h : RadiiFit xs) (hk : RadiiFit ks) :
    RadiiFit (xs ++ ks) := by
  intro k hmem he
  rcases List.mem_append.mp hmem with hm | hm
  · exact h k hm he
  · exact hk k hm he

theorem radiiFit_drawing {stops : Prop} (hd : Drawing stops c t)
    (h : RadiiFit c.surface.calls) : RadiiFit t.surface.calls := by
  obtain ⟨calls, q, hp, hs, -⟩ := recorded_of_drawing hd
  rw [hs, Recording.calls_recordAll]
  exact radiiFit_append h fun k hk he => hp.hasRadii hk he

theorem radiiFit_turn (ht : Turn c t) (h : RadiiFit c.surface.calls) :
    RadiiFit t.surface.calls := by
  cases recorded_of_turn ht with
  | neutral calls hk hs hc hp =>
    rw [hs, Recording.calls_recordAll]
    refine radiiFit_append h fun k hmem he => ?_
    have := hk k hmem
    rw [he] at this
    cases this
  | lifted k hk hs hp =>
    rw [hs, Recording.calls_recordAll]
    refine radiiFit_append h fun l hmem he => ?_
    rw [List.mem_singleton.mp hmem] at he
    rw [he] at hk
    cases hk
  | cleared unit hs hp =>
    rw [hs]
    exact fun k hk => absurd hk (by simp)

end Radii

/-- Whatever is asked of a canvas on an empty recording, nothing is drawn on it without a subpath
that is open in the coordinates in force, and no ellipse with a radius below zero. -/
theorem anchored_run (autoOpen : Bool) (unit : AngleUnit) (ops : List (Op Float)) :
    Anchored (run ops (fresh Recording.empty autoOpen unit)).2.surface.calls ∧
      RadiiFit (run ops (fresh Recording.empty autoOpen unit)).2.surface.calls := by
  constructor
  · have hc : Anchoring (fresh Recording.empty autoOpen unit : Canvas (Recording Float) Float) :=
      ⟨anchored_nil, by simp [fresh, Pen.fresh, Pen.isOpen]⟩
    have hk := run_keeps (P := Anchoring) (step_keeps anchoring_drawing anchoring_turn) ops hc
    exact hk.anchored
  · exact run_keeps (P := fun t : Canvas (Recording Float) Float => RadiiFit t.surface.calls)
      (step_keeps radiiFit_drawing radiiFit_turn) ops
      (by simp [fresh, RadiiFit])

end Canvas

end Linework
