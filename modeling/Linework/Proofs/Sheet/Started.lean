import Linework.Proofs.Sheet.Calls
import Linework.Proofs.Sheet.PartText
import Linework.Proofs.Sheet.Segments

/-!
# Parts that follow a start

A sheet adds lines, curves and arcs to its path only once a subpath was started, and only with
coordinates that are finite. Both hold of every sheet that calls lead to, if none of them fails:
they hold of a blank one, and each call keeps them.
-/

set_option autoImplicit false

namespace Linework

namespace Part

variable {α : Type}

def Started (parts : List (Part α)) : Prop := ∃ part ∈ parts, part.verb = .move

theorem Started.cons {parts : List (Part α)} (h : Started parts) (part : Part α) :
    Started (part :: parts) := by
  obtain ⟨p, hp, hv⟩ := h
  exact ⟨p, List.mem_cons_of_mem part hp, hv⟩

/-- Of parts with the latest one first, each comes after a start, unless it is one or closes. -/
def FollowStarts : List (Part α) → Prop
  | [] => True
  | part :: rest =>
    (part.verb = .move ∨ part.verb = .close ∨ Started rest) ∧ FollowStarts rest

theorem FollowStarts.of_append {later earlier : List (Part α)}
    (h : FollowStarts (later ++ earlier)) : FollowStarts earlier := by
  induction later with
  | nil => exact h
  | cons part later ih => exact ih h.2

end Part

namespace Sheet

variable {α : Type} [Scalar α]

/-- A sheet whose path is finite and in order, and which has points only once the path has a
start. -/
structure Sound (s : Sheet α) : Prop where
  finite : ∀ part ∈ s.backwards, part.IsFinite
  ordered : Part.FollowStarts s.backwards
  current : s.current ≠ none → Part.Started s.backwards
  start : s.start ≠ none → Part.Started s.backwards

structure Open (s : Sheet α) : Prop extends Sound s where
  started : Part.Started s.backwards

variable {s t : Sheet α}

theorem sound_blank (width height fileName : String) :
    (blank width height fileName : Sheet α).Sound :=
  ⟨by simp [blank], trivial, by simp [blank], by simp [blank]⟩

theorem Sound.open (h : s.Sound) (hc : s.current.isNone = false) : s.Open :=
  ⟨h, h.current (by rintro hn; simp [hn] at hc)⟩

theorem Sound.of_same (h : s.Sound) (hb : t.backwards = s.backwards) (hc : t.current = s.current)
    (hs : t.start = s.start) : t.Sound := by
  obtain ⟨h1, h2, h3, h4⟩ := h
  exact ⟨hb ▸ h1, hb ▸ h2, by rwa [hb, hc], by rwa [hb, hs]⟩

theorem Open.of_started (h : s.Open) (hb : t.backwards = s.backwards) : t.Open := by
  have hstarted : Part.Started t.backwards := hb ▸ h.started
  exact ⟨⟨hb ▸ h.finite, hb ▸ h.ordered, fun _ => hstarted, fun _ => hstarted⟩, hstarted⟩

theorem Sound.beginPath (s : Sheet α) : s.beginPath.Sound :=
  ⟨by simp [Sheet.beginPath], trivial, by simp [Sheet.beginPath], by simp [Sheet.beginPath]⟩

theorem Sound.closePath (h : s.Sound) : s.closePath.Sound := by
  refine ⟨?_, ⟨.inr (.inl rfl), h.ordered⟩, fun hc => (h.start hc).cons _,
    fun hs => (h.start hs).cons _⟩
  rintro part hp
  rcases List.mem_cons.mp hp with rfl | hp
  · simp [Part.IsFinite, Part.coordinates]
  · exact h.finite part hp

section Actions

/-- An action that needs no more than a sound sheet and leads to an open one. -/
abbrev Opens {β : Type} (m : Act (Sheet α) β) : Prop := Act.Ensures Sound Open m

abbrev StaysOpen {β : Type} (m : Act (Sheet α) β) : Prop := Act.Ensures Open Open m

theorem opens_of_current {β : Type} {m : Act (Sheet α) β} (h : StaysOpen m) (hs : s.Sound)
    (hc : s.current.isNone = false) : Act.Ensures (fun t => t = s) Open m :=
  h.imp (fun _ ht => ht ▸ hs.open hc) fun _ ht => ht

theorem opens_at {β : Type} {m : Act (Sheet α) β} (h : Opens m) (hs : s.Sound) :
    Act.Ensures (fun t => t = s) Open m :=
  h.imp (fun _ ht => ht ▸ hs) fun _ ht => ht

theorem ensures_append {part : Part α} {p : Sheet α → Prop}
    (hp : ∀ s : Sheet α, p s → s.Sound ∧ (part.verb = .move ∨ Part.Started s.backwards)) :
    Act.Ensures p Open (append part) := by
  rw [append]
  split
  · exact Act.ensures_throw _
  · next hn =>
    refine Act.ensures_modify fun s hs => ?_
    obtain ⟨hsound, hv⟩ := hp s hs
    have hstarted : Part.Started (part :: s.backwards) :=
      hv.elim (fun hm => ⟨part, List.mem_cons_self, hm⟩) fun h => h.cons part
    refine ⟨⟨?_, ⟨hv.imp_right .inr, hsound.ordered⟩, fun _ => hstarted, fun _ => hstarted⟩,
      hstarted⟩
    rintro q hq
    rcases List.mem_cons.mp hq with rfl | hq
    · exact Part.nonFinite?_eq_none_iff.mp hn
    · exact hsound.finite q hq

theorem opens_append_move (z : Point α) : Opens (append (.move z)) :=
  ensures_append fun _ hs => ⟨hs, .inl rfl⟩

theorem staysOpen_append (part : Part α) : StaysOpen (append part) :=
  ensures_append fun _ hs => ⟨hs.toSound, .inr hs.started⟩

theorem staysOpen_openAt (z : Point α) : StaysOpen (modify (openAt z)) :=
  Act.ensures_modify fun _ hs => hs.of_started rfl

theorem staysOpen_setCurrent (z : Point α) : StaysOpen (modify (setCurrent z)) :=
  Act.ensures_modify fun _ hs => hs.of_started rfl

theorem opens_moveTo (p : Point α) : Opens (moveTo p) :=
  Act.ensures_bind Act.ensures_get fun s =>
    Act.ensures_bind (opens_append_move (s.map p)) fun _ => staysOpen_openAt _

theorem opens_lineTo (p : Point α) : Opens (lineTo p) := by
  refine Act.ensures_bind_get fun s hs => ?_
  dsimp only
  split
  · exact opens_at (Act.ensures_bind (opens_append_move _) fun _ => staysOpen_openAt _) hs
  · next hc =>
    exact opens_of_current (Act.ensures_bind (staysOpen_append _) fun _ => staysOpen_setCurrent _)
      hs (Bool.eq_false_of_not_eq_true hc)

theorem opens_ensureCurrent (p : Point α) : Opens (ensureCurrent p) := by
  refine Act.ensures_bind_get fun s hs => ?_
  split
  · exact opens_at (opens_moveTo p) hs
  · next hc => exact opens_of_current (Act.ensures_pure _) hs (Bool.eq_false_of_not_eq_true hc)

theorem opens_startCurve (x y : Argument α) : Opens (startCurve x y) := by
  refine Act.ensures_bind_get fun s hs => ?_
  split
  · exact opens_at (Act.ensures_bind (Act.ensures_ofExcept _) fun p => opens_moveTo p) hs
  · next hc => exact opens_of_current (Act.ensures_pure _) hs (Bool.eq_false_of_not_eq_true hc)

theorem opens_cubicTo (first second p : Point α) : Opens (cubicTo first second p) :=
  Act.ensures_bind (opens_ensureCurrent first) fun _ => Act.ensures_bind Act.ensures_get fun _ =>
    Act.ensures_bind (staysOpen_append _) fun _ => staysOpen_setCurrent _

theorem opens_quadraticTo (control p : Point α) : Opens (quadraticTo control p) :=
  Act.ensures_bind (opens_ensureCurrent control) fun _ => Act.ensures_bind Act.ensures_get fun _ =>
    Act.ensures_bind (staysOpen_append _) fun _ => staysOpen_setCurrent _

theorem opens_joinTo (z : Point α) : Opens (joinTo z) := by
  refine Act.ensures_bind_get fun s hs => ?_
  split
  · exact opens_at (Act.ensures_bind (opens_append_move _) fun _ => staysOpen_openAt _) hs
  · next p hc =>
    refine opens_of_current ?_ hs (by rw [hc]; rfl)
    refine Act.ensures_bind (Act.ensures_ofExcept _) fun near => ?_
    cases near with
    | true => exact staysOpen_setCurrent _
    | false => exact Act.ensures_bind (staysOpen_append _) fun _ => staysOpen_setCurrent _

theorem staysOpen_drawPieces (image : Option (EllipseImage α)) (pieces : List (EndpointArc α)) :
    StaysOpen (drawPieces image pieces) := by
  induction pieces with
  | nil => exact Act.ensures_pure _
  | cons piece rest ih =>
    exact Act.ensures_bind Act.ensures_get fun _ => Act.ensures_bind (staysOpen_append _) fun _ =>
      Act.ensures_bind (staysOpen_setCurrent _) fun _ => ih

variable [HasAxes α]

theorem opens_ellipse (o : Oval α) : Opens (ellipse o) := by
  refine Act.ensures_bind (Act.ensures_ofExcept _) fun ⟨start, pieces⟩ => ?_
  refine Act.ensures_bind Act.ensures_get fun _ => ?_
  refine Act.ensures_bind (opens_joinTo _) fun _ => ?_
  split
  · exact Act.ensures_pure _
  refine Act.ensures_bind Act.ensures_get fun _ => ?_
  exact Act.ensures_bind (Act.ensures_ofExcept _) fun image => staysOpen_drawPieces image pieces

end Actions

section Calls

abbrev KeepsSound {β : Type} (m : Act (Sheet α) β) : Prop := Act.Ensures Sound Sound m

theorem keepsSound_of_opens {β : Type} {m : Act (Sheet α) β} (h : Opens m) : KeepsSound m :=
  h.imp (fun _ hs => hs) fun _ ht => ht.toSound

theorem keepsSound_draw {m : Act (Sheet α) Unit} (h : Opens m) : KeepsSound (draw m) :=
  Act.ensures_bind (keepsSound_of_opens h) fun _ => Act.ensures_pure _

theorem keepsSound_change {f : Sheet α → Sheet α} (hf : ∀ s : Sheet α, s.Sound → (f s).Sound) :
    KeepsSound (change f) :=
  Act.ensures_bind (Act.ensures_modify hf) fun _ => Act.ensures_pure _

theorem keepsSound_paint (ink : Ink) : KeepsSound (paint ink : Act (Sheet α) _) := by
  intro s w t hs h
  have hbackwards := (unpainted_paint ink).part Sheet.backwards s
  have hcurrent := (unpainted_paint ink).part Sheet.current s
  have hstart := (unpainted_paint ink).part Sheet.start s
  rw [h] at hbackwards hcurrent hstart
  exact hs.of_same hbackwards hcurrent hstart

variable [HasAxes α]

theorem keepsSound_performs {p : Primitive} {m : Act (Sheet α) (List Warning)}
    (h : Performs p m) : KeepsSound m := by
  cases h with
  | begins => exact keepsSound_change fun s _ => .beginPath s
  | moves p => exact keepsSound_draw (opens_moveTo p)
  | lines p => exact keepsSound_draw (opens_lineTo p)
  | cubic x y first second p =>
    exact Act.ensures_bind (keepsSound_of_opens (opens_startCurve x y)) fun _ =>
      keepsSound_draw (opens_cubicTo first second p)
  | quadratic x y control p =>
    exact Act.ensures_bind (keepsSound_of_opens (opens_startCurve x y)) fun _ =>
      keepsSound_draw (opens_quadraticTo control p)
  | curveRefused _ x y e => exact Act.ensures_bind (Act.ensures_true _) fun _ => Act.ensures_throw e
  | ellipse o => exact keepsSound_draw (opens_ellipse o)
  | closes => exact keepsSound_change fun _ hs => hs.closePath
  | saves | composes | sets => exact keepsSound_change fun _ hs => hs.of_same rfl rfl rfl
  | restores =>
    refine keepsSound_change fun s hs => ?_
    rw [restore]
    split
    · exact hs
    · exact hs.of_same rfl rfl rfl
  | paints _ ink => exact keepsSound_paint ink
  | refused _ e => exact Act.ensures_throw e

theorem sound_performAll {calls : List (Call α)} {w : List Warning} (hs : s.Sound)
    (h : Surface.performAll calls s = (w, none, t)) : t.Sound := by
  induction calls generalizing s w with
  | nil =>
    cases h
    exact hs
  | cons k rest ih =>
    rcases hk : (Surface.perform k : Act (Sheet α) _).run s with ⟨e | w', u⟩
    · rw [Canvas.performAll_cons_error hk] at h
      cases h
    · rw [Canvas.performAll_cons_ok hk] at h
      obtain ⟨-, h⟩ := Prod.mk.inj h
      exact ih (keepsSound_performs (performs_perform k) s w' u hs hk) (Prod.ext rfl h)

end Calls

end Sheet

end Linework
