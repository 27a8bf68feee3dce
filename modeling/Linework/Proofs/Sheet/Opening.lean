import Linework.Proofs.Canvas.Asked
import Linework.Proofs.Canvas.Step
import Linework.Proofs.Canvas.Watched
import Linework.Proofs.Sheet.Started

/-!
# How a path on a sheet opens

A sheet starts a subpath for whatever is drawn where there is none, so that a path opens with a
move. Only closing does not look for an open subpath: closed before anything is drawn, a path opens
with that. This is the one way for it to happen, also in runs with operations that fail, and what is
painted is always one of the paths that the run went through.
-/

set_option autoImplicit false

namespace Linework

open Outline (Command Element)

namespace Sheet

variable {α : Type}

/-- The first part of the path. -/
def opening? (s : Sheet α) : Option (Part α) := s.parts.head?

theorem opening?_of_cons {s t : Sheet α} {part : Part α}
    (h : t.backwards = part :: s.backwards) : t.opening? = some (s.opening?.getD part) := by
  rw [opening?, opening?, parts, parts, h, List.reverse_cons]
  cases s.backwards.reverse <;> rfl

theorem opening?_congr {s t : Sheet α} (h : t.backwards = s.backwards) :
    t.opening? = s.opening? := by
  rw [opening?, opening?, parts, parts, h]

theorem opening?_eq_none_iff {s : Sheet α} : s.opening? = none ↔ s.parts = [] :=
  List.head?_eq_none_iff

theorem mem_painted_paint {ink : Ink} {s : Sheet α} {q : Painted α}
    (hq : q ∈ ((paint ink).run s).2.painted) :
    q ∈ s.painted ∨ q.parts = s.parts ∧ s.parts ≠ [] := by
  rw [paint, Act.run_bind_ok (Act.run_get s)] at hq
  split at hq
  · exact .inl hq
  next hne =>
  split at hq
  · rcases List.mem_append.mp hq with hq | hq
    · exact .inl hq
    · rw [List.mem_singleton] at hq
      exact .inr ⟨congrArg Painted.parts hq, by simpa [parts] using hne⟩
  · exact .inl hq

theorem parts_paint (ink : Ink) (s : Sheet α) : ((paint ink).run s).2.parts = s.parts :=
  (unpainted_paint ink).part Sheet.parts s

theorem painted_change {f : Sheet α → Sheet α} (h : ∀ s, (f s).painted = s.painted) :
    Act.Leaves Sheet.painted (change f) :=
  Act.leaves_bind (Act.leaves_modify h) fun _ => Act.leaves_pure _

theorem painted_onlyPath {m : Act (Sheet α) Unit} (h : OnlyPath m) :
    Act.Leaves Sheet.painted (draw m) :=
  (onlyPath_draw h).part Sheet.painted

theorem head_cases_of_followStarts {parts : List (Part α)} (h : Part.FollowStarts parts) :
    parts.reverse.head? = none ∨ (∃ z, parts.reverse.head? = some (.move z)) ∨
      parts.reverse.head? = some .close := by
  induction parts with
  | nil => exact .inl rfl
  | cons part rest ih =>
    rw [List.reverse_cons]
    rcases hr : rest.reverse with _ | ⟨first, others⟩
    · rw [List.reverse_eq_nil_iff] at hr
      obtain ⟨hv, -⟩ := h
      rw [hr] at hv
      cases part with
      | move z => exact .inr (.inl ⟨z, rfl⟩)
      | close => exact .inr (.inr rfl)
      | _ => rcases hv with hv | hv | ⟨_, hm, -⟩ <;> cases ‹_›
    · rw [hr] at ih
      exact ih h.2

variable [Scalar α]

theorem Sound.opening_cases {s : Sheet α} (h : s.Sound) :
    s.opening? = none ∨ (∃ z, s.opening? = some (.move z)) ∨ s.opening? = some .close :=
  head_cases_of_followStarts h.ordered

/-- What drawing does to a sheet, one change at a time. -/
inductive Marks (s : Sheet α) : Sheet α → Prop
  | added {part : Part α} (hf : part.IsFinite)
      (hv : part.verb = .move ∨ part.verb ≠ .close ∧ Part.Started s.backwards) :
      Marks s { s with backwards := part :: s.backwards }
  | put {t : Sheet α} (hs : Part.Started s.backwards) (hb : t.backwards = s.backwards) : Marks s t
  | aside {t : Sheet α} (hb : t.backwards = s.backwards) (hc : t.current = s.current)
      (hs : t.start = s.start) : Marks s t

/-- A sound sheet that has come from another one. Its path opens with a close if that of the other
one did, or if it was closed early on the way. -/
structure Continues (early : Prop) (s t : Sheet α) : Prop extends Sound t where
  opening : t.opening? = some .close ↔ s.opening? = some .close ∨ early

theorem Sound.continues {s : Sheet α} (h : s.Sound) : Continues False s s :=
  ⟨h, by rw [or_false]⟩

theorem Continues.trans {p q : Prop} {s t u : Sheet α} (h : Continues p s t)
    (h' : Continues q t u) : Continues (p ∨ q) s u :=
  ⟨h'.toSound, by rw [h'.opening, h.opening, or_assoc]⟩

theorem Continues.congr {p q : Prop} {s t : Sheet α} (h : Continues p s t) (hpq : p ↔ q) :
    Continues q s t :=
  ⟨h.toSound, by rw [h.opening, hpq]⟩

theorem Marks.continues {s t : Sheet α} (h : s.Marks t) (hs : s.Sound) :
    Continues False s t := by
  cases h with
  | @added part hf hv =>
    have hstarted : Part.Started (part :: s.backwards) :=
      hv.elim (fun hm => ⟨part, List.mem_cons_self, hm⟩) fun h => h.2.cons part
    refine ⟨⟨?_, ⟨hv.imp_right fun h => .inr h.2, hs.ordered⟩, fun _ => hstarted,
      fun _ => hstarted⟩, ?_⟩
    · rintro q hq
      rcases List.mem_cons.mp hq with rfl | hq
      · exact hf
      · exact hs.finite q hq
    · rw [opening?_of_cons rfl]
      have hne : part ≠ .close := by
        rintro rfl
        rcases hv with hv | ⟨hv, -⟩
        · cases hv
        · exact hv rfl
      cases s.opening? with
      | none => simp [hne]
      | some first => simp
  | put hstarted hb =>
    exact ⟨((⟨hs, hstarted⟩ : s.Open).of_started hb).toSound, by rw [opening?_congr hb, or_false]⟩
  | aside hb hc hst => exact ⟨hs.of_same hb hc hst, by rw [opening?_congr hb, or_false]⟩

theorem continues_of_moves {s t : Sheet α} (h : Relation.ReflTransGen Marks s t) (hs : s.Sound) :
    Continues False s t := by
  induction h with
  | refl => exact hs.continues
  | tail _ hm ih => exact (ih.trans (hm.continues ih.toSound)).congr (or_self_iff)

theorem Sound.continues_closePath {s : Sheet α} (hs : s.Sound) :
    Continues (s.parts = []) s s.closePath := by
  refine ⟨hs.closePath, ?_⟩
  rw [opening?_of_cons rfl, ← opening?_eq_none_iff]
  cases s.opening? with
  | none => simp
  | some first => simp

section Actions

variable {s : Sheet α}

theorem marks_append {part : Part α}
    (hv : part.verb = .move ∨ part.verb ≠ .close ∧ Part.Started s.backwards) :
    Act.Moves Marks (append part) s := by
  cases hn : part.nonFinite? with
  | some n => exact Act.moves_of_reads (run_append_of_nonFinite hn s)
  | none =>
    apply Act.moves_of_step
    rw [run_append_of_finite hn]
    exact .added (Part.nonFinite?_eq_none_iff.mp hn) hv

theorem marks_modify (hs : s.Open) {f : Sheet α → Sheet α} (hf : (f s).backwards = s.backwards) :
    Act.Moves Marks (modify f) s :=
  Act.moves_of_step (.put hs.started hf)

theorem marks_start (hs : s.Sound) (z : Point α) :
    Act.Moves Marks (append (.move z) >>= fun _ => modify (openAt z)) s :=
  Act.moves_bind (marks_append (.inl rfl)) fun _ t ht =>
    marks_modify (opens_append_move z s _ t hs ht) rfl

theorem marks_go (hs : s.Open) {part : Part α} (hp : part.verb ≠ .close) (z : Point α) :
    Act.Moves Marks (append part >>= fun _ => modify (setCurrent z)) s :=
  Act.moves_bind (marks_append (.inr ⟨hp, hs.started⟩)) fun _ t ht =>
    marks_modify (staysOpen_append part s _ t hs ht) rfl

theorem marks_moveTo (hs : s.Sound) (p : Point α) : Act.Moves Marks (moveTo p) s :=
  Act.moves_bind_get (marks_start hs _)

theorem marks_lineTo (hs : s.Sound) (p : Point α) : Act.Moves Marks (lineTo p) s := by
  apply Act.moves_bind_get
  dsimp only
  split
  · exact marks_start hs _
  · next hc => exact marks_go (hs.open (Bool.eq_false_of_not_eq_true hc)) (by simp [Part.verb]) _

theorem marks_ensureCurrent (hs : s.Sound) (p : Point α) :
    Act.Moves Marks (ensureCurrent p) s := by
  apply Act.moves_bind_get
  split
  · exact marks_moveTo hs p
  · exact Act.moves_pure _ s

theorem marks_startCurve (hs : s.Sound) (x y : Argument α) :
    Act.Moves Marks (startCurve x y) s := by
  apply Act.moves_bind_get
  split
  · exact Act.moves_bind_ofExcept fun p _ => marks_moveTo hs p
  · exact Act.moves_pure _ s

theorem marks_cubicTo (hs : s.Sound) (first second p : Point α) :
    Act.Moves Marks (cubicTo first second p) s :=
  Act.moves_bind (marks_ensureCurrent hs first) fun _ t ht => Act.moves_bind_get
    (marks_go (opens_ensureCurrent first s _ t hs ht) (by simp [Part.verb]) _)

theorem marks_quadraticTo (hs : s.Sound) (control p : Point α) :
    Act.Moves Marks (quadraticTo control p) s :=
  Act.moves_bind (marks_ensureCurrent hs control) fun _ t ht => Act.moves_bind_get
    (marks_go (opens_ensureCurrent control s _ t hs ht) (by simp [Part.verb]) _)

theorem marks_joinTo (hs : s.Sound) (z : Point α) : Act.Moves Marks (joinTo z) s := by
  apply Act.moves_bind_get
  split
  · exact marks_start hs z
  · next p hc =>
    have hopen : s.Open := hs.open (by rw [hc]; rfl)
    refine Act.moves_bind_ofExcept fun near _ => ?_
    cases near with
    | true => exact marks_modify hopen rfl
    | false => exact marks_go hopen (by simp [Part.verb]) z

theorem marks_drawPieces (hs : s.Open) (image : Option (EllipseImage α))
    (pieces : List (EndpointArc α)) : Act.Moves Marks (drawPieces image pieces) s := by
  induction pieces generalizing s with
  | nil => exact Act.moves_pure _ s
  | cons piece rest ih =>
    have hpart : ∀ z, (piecePart image piece z).verb ≠ .close := by
      intro z
      cases image <;> simp [piecePart, Part.verb]
    apply Act.moves_bind_get
    refine Act.moves_bind (marks_append (.inr ⟨hpart _, hs.started⟩)) fun _ t ht => ?_
    have htopen := staysOpen_append _ s _ t hs ht
    refine Act.moves_bind (marks_modify htopen rfl) fun _ u hu => ?_
    exact ih (staysOpen_setCurrent _ t _ u htopen hu)

theorem marks_draw {m : Act (Sheet α) Unit} (h : Act.Moves Marks m s) :
    Act.Moves Marks (draw m) s :=
  Act.moves_bind h fun _ t _ => Act.moves_pure _ t

theorem marks_change {f : Sheet α → Sheet α} (hb : (f s).backwards = s.backwards)
    (hc : (f s).current = s.current) (hst : (f s).start = s.start) :
    Act.Moves Marks (change f) s :=
  Act.moves_bind (Act.moves_of_step (.aside hb hc hst)) fun _ t _ => Act.moves_pure _ t

theorem marks_paint (ink : Ink) : Act.Moves Marks (paint ink : Act (Sheet α) _) s :=
  Act.moves_of_step (.aside ((unpainted_paint ink).part Sheet.backwards s)
    ((unpainted_paint ink).part Sheet.current s) ((unpainted_paint ink).part Sheet.start s))

variable [HasAxes α]

theorem marks_ellipse (hs : s.Sound) (o : Oval α) : Act.Moves Marks (ellipse o) s := by
  refine Act.moves_bind_ofExcept fun ⟨start, pieces⟩ _ => ?_
  apply Act.moves_bind_get
  refine Act.moves_bind (marks_joinTo hs _) fun _ t ht => ?_
  have htopen := opens_joinTo _ s _ t hs ht
  split
  · exact Act.moves_pure _ t
  apply Act.moves_bind_get
  exact Act.moves_bind_ofExcept fun image _ => marks_drawPieces htopen image pieces

theorem marks_performs {p : Primitive} {m : Act (Sheet α) (List Warning)} (h : Performs p m)
    (hb : p ≠ .beginPath) (hc : p ≠ .closePath) (hs : s.Sound) : Act.Moves Marks m s := by
  cases h with
  | begins => exact absurd rfl hb
  | closes => exact absurd rfl hc
  | moves p => exact marks_draw (marks_moveTo hs p)
  | lines p => exact marks_draw (marks_lineTo hs p)
  | cubic x y first second p =>
    exact Act.moves_bind (marks_startCurve hs x y) fun _ t ht =>
      marks_draw (marks_cubicTo (opens_startCurve x y s _ t hs ht).toSound first second p)
  | quadratic x y control p =>
    exact Act.moves_bind (marks_startCurve hs x y) fun _ t ht =>
      marks_draw (marks_quadraticTo (opens_startCurve x y s _ t hs ht).toSound control p)
  | curveRefused _ x y e =>
    exact Act.moves_bind (marks_startCurve hs x y) fun _ t _ => Act.moves_throw e t
  | ellipse o => exact marks_draw (marks_ellipse hs o)
  | saves | composes | sets => exact marks_change rfl rfl rfl
  | restores => apply marks_change <;> rw [restore] <;> split <;> rfl
  | paints _ ink => exact marks_paint ink
  | refused _ e => exact Act.moves_throw e s

theorem continues_perform {k : Call α} (hb : k.primitive ≠ .beginPath)
    (hc : k.primitive ≠ .closePath) (hs : s.Sound) :
    Continues False s ((Surface.perform k : Act (Sheet α) (List Warning)).run s).2 :=
  continues_of_moves (marks_performs (performs_perform k) hb hc hs) hs

end Actions

section Painting

theorem painted_startCurve (x y : Argument α) : Act.Leaves Sheet.painted (startCurve x y) :=
  (onlyPath_startCurve x y).part Sheet.painted

variable [HasAxes α]

theorem perform_paints {k : Call α} (h : k.primitive = .fill ∨ k.primitive = .stroke) :
    (∃ ink, (Surface.perform k : Act (Sheet α) (List Warning)) = paint ink) ∨
      ∃ e, (Surface.perform k : Act (Sheet α) (List Warning)) = throw e := by
  obtain ⟨primitive, arguments⟩ := k
  rcases h with rfl | rfl <;> match arguments with
  | [] => exact .inr ⟨.wrongType, rfl⟩
  | a :: _ :: _ => exact .inr ⟨.wrongType, by cases a <;> rfl⟩
  | [.style s] => exact .inl ⟨_, rfl⟩
  | [.number _] | [.flag _] | [.absent] | [.other _] => exact .inr ⟨.notAStyle, rfl⟩

theorem painted_perform {k : Call α} (hf : k.primitive ≠ .fill) (hs : k.primitive ≠ .stroke) :
    Act.Leaves Sheet.painted (Surface.perform k : Act (Sheet α) (List Warning)) := by
  change Act.Leaves Sheet.painted (perform k)
  obtain ⟨primitive, arguments⟩ := k
  have hread : ∀ {β γ : Type} {e : Except Fault β} {f : β → Act (Sheet α) γ},
      (∀ b, Act.Leaves Sheet.painted (f b)) →
        Act.Leaves Sheet.painted (Act.ofExcept e >>= f) :=
    fun hf => Act.leaves_bind (Act.leaves_ofExcept _) hf
  rw [perform]
  dsimp only
  split
  · exact painted_change fun _ => rfl
  · exact hread fun p => painted_onlyPath (onlyPath_moveTo p)
  · exact hread fun p => painted_onlyPath (onlyPath_lineTo p)
  · exact Act.leaves_bind (painted_startCurve _ _) fun _ => hread fun p => hread fun first =>
      hread fun second => painted_onlyPath (onlyPath_cubicTo first second p)
  · exact Act.leaves_bind (painted_startCurve _ _) fun _ => hread fun p => hread fun control =>
      painted_onlyPath (onlyPath_quadraticTo control p)
  · exact hread fun o => painted_onlyPath (onlyPath_ellipse o)
  · exact painted_change fun _ => rfl
  · exact painted_change fun _ => rfl
  · refine painted_change fun s => ?_
    rw [restore]
    split <;> rfl
  · exact absurd rfl hf
  · exact absurd rfl hf
  · exact absurd rfl hs
  · exact absurd rfl hs
  · exact hread fun m => painted_change fun _ => rfl
  · exact hread fun m => painted_change fun _ => rfl
  · exact hread fun turn => hread fun m => painted_change fun _ => rfl
  · exact hread fun m => painted_change fun _ => rfl
  · exact hread fun m => painted_change fun _ => rfl
  · exact Act.leaves_throw _

end Painting

end Sheet

namespace Canvas

variable {α : Type} [Scalar α] [HasAxes α]

def ClosesIn : List (Element α) → Canvas (Sheet α) α → Prop
  | [], _ => False
  | e :: rest, c => (e.command.verb = .close ∧ e.numbers = [] ∧ c.surface.parts = []) ∨
      ∃ t, (command e.command (Argument.ofNumbers e.numbers)).run c = (.ok (), t) ∧
        ClosesIn rest t

/-- An operation closes the path while it is empty. -/
def ClosesEarly : Op α → Canvas (Sheet α) α → Prop
  | .command k as, c => k.verb = .close ∧ as = [] ∧ c.surface.parts = []
  | .path text, c => ∃ es, Outline.parse text = .ok es ∧ ClosesIn es c
  | _, _ => False

/-- Some operation closes the path early, and the path is not dropped after that. -/
def ClosedEarly (ops : List (Op α)) (c : Canvas (Sheet α) α) : Prop :=
  ∃ before op after, ops = before ++ op :: after ∧ ClosesEarly op (run before c).2 ∧
    ∀ o ∈ after, o ≠ .beginPath ∧ o ≠ .reset

section Steps

variable {c : Canvas (Sheet α) α}

theorem continues_of_asks {β : Type} {p : Primitive → Bool} {m : Act (Canvas (Sheet α) α) β}
    (h : Asks p m) (hp : p .beginPath = false ∧ p .closePath = false) (hs : c.surface.Sound) :
    Sheet.Continues False c.surface (m.run c).2.surface := by
  refine h.keeps (P := fun t => Sheet.Continues False c.surface t) (fun k t hk ht => ?_)
    hs.continues
  have hb : k.primitive ≠ .beginPath := ne_of_apply_ne p (by simp [hk, hp.1])
  have hc : k.primitive ≠ .closePath := ne_of_apply_ne p (by simp [hk, hp.2])
  exact (ht.trans (Sheet.continues_perform hb hc ht.toSound)).congr or_self_iff

theorem continues_command (k : Command) (as : List (Argument α)) (hs : c.surface.Sound) :
    Sheet.Continues (k.verb = .close ∧ as = [] ∧ c.surface.parts = []) c.surface
      ((command k as).run c).2.surface := by
  by_cases hk : k.verb = .close
  · by_cases has : as = []
    · subst has
      have hrun : ((command k []).run c).2.surface = c.surface.closePath := by
        have hacc : accepts k 0 = true := by simp [accepts, hk]
        rw [command, List.length_nil, if_pos hacc, carryOut, hk]
        rfl
      rw [hrun]
      exact hs.continues_closePath.congr (by simp [hk])
    · have hrun : ((command k as).run c).2 = c := by
        have hacc : ¬ accepts k as.length = true := by simp [accepts, hk, has]
        rw [command, if_neg hacc]
        rfl
      rw [hrun]
      exact hs.continues.congr (by simp [has])
  · have hasks : Asks Primitive.draws (command k as : Act (Canvas (Sheet α) α) Unit) := by
      have h := asks_command (σ := Sheet α) k as
      rwa [Op.asks, if_neg hk] at h
    exact (continues_of_asks hasks ⟨rfl, rfl⟩ hs).congr (by simp [hk])

theorem continues_elements (es : List (Element α)) (hs : c.surface.Sound) :
    Sheet.Continues (ClosesIn es c) c.surface ((elements es).run c).2.surface := by
  induction es generalizing c with
  | nil => exact hs.continues
  | cons e rest ih =>
    have hfirst := continues_command e.command (Argument.ofNumbers e.numbers) hs
    rw [elements, ClosesIn]
    rcases h : (command e.command (Argument.ofNumbers e.numbers)).run c with ⟨f | _, t⟩
    · rw [h] at hfirst
      rw [Act.run_bind_error h]
      exact hfirst.congr (by simp [Argument.ofNumbers])
    · rw [h] at hfirst
      rw [Act.run_bind_ok h]
      exact (hfirst.trans (ih hfirst.toSound)).congr (by simp [Argument.ofNumbers])

theorem continues_step {op : Op α} (hb : op ≠ .beginPath) (hr : op ≠ .reset)
    (hs : c.surface.Sound) :
    Sheet.Continues (ClosesEarly op c) c.surface (step op c).2.surface := by
  have hall := asks_act (σ := Sheet α) hr
  cases op with
  | command k as =>
    rw [step, act, run_quietly_state]
    exact continues_command k as hs
  | path text =>
    rw [step, act, run_quietly_state, path]
    rcases hp : (Outline.parse text : Except Fault (List (Element α))) with e | es
    · exact hs.continues.congr (by simp [ClosesEarly, hp])
    · rw [Act.ofExcept_ok, pure_bind]
      exact (continues_elements es hs).congr (by simp [ClosesEarly, hp])
  | beginPath => exact absurd rfl hb
  | reset => exact absurd rfl hr
  | _ => exact continues_of_asks hall ⟨rfl, rfl⟩ hs

theorem surface_step_beginPath (c : Canvas (Sheet α) α) :
    (step .beginPath c).2.surface = c.surface.beginPath := rfl

theorem surface_step_reset (c : Canvas (Sheet α) α) :
    (step .reset c).2.surface = c.surface.cleared := rfl

theorem sound_step (op : Op α) (hs : c.surface.Sound) : (step op c).2.surface.Sound := by
  by_cases hb : op = .beginPath
  · subst hb
    exact .beginPath _
  by_cases hr : op = .reset
  · subst hr
    exact Sheet.sound_blank _ _ _
  · exact (continues_step hb hr hs).toSound

theorem opening_step (op : Op α) (hs : c.surface.Sound) :
    (step op c).2.surface.opening? = some .close ↔
      ClosesEarly op c ∨
        c.surface.opening? = some .close ∧ op ≠ .beginPath ∧ op ≠ .reset := by
  by_cases hb : op = .beginPath
  · subst hb
    simp [surface_step_beginPath, ClosesEarly, Sheet.opening?, Sheet.parts, Sheet.beginPath]
  by_cases hr : op = .reset
  · subst hr
    simp [surface_step_reset, ClosesEarly, Sheet.opening?, Sheet.parts, Sheet.cleared, Sheet.blank]
  · rw [(continues_step hb hr hs).opening]
    simp [hb, hr, or_comm]

theorem painted_of_asks {β : Type} {p : Primitive → Bool} {m : Act (Canvas (Sheet α) α) β}
    (h : Asks p m) (hp : p .fill = false ∧ p .stroke = false) :
    (m.run c).2.surface.painted = c.surface.painted := by
  refine h.keeps (P := fun t => t.painted = c.surface.painted) (fun k t hk ht => ?_) rfl
  have hf : k.primitive ≠ .fill := ne_of_apply_ne p (by simp [hk, hp.1])
  have hs : k.primitive ≠ .stroke := ne_of_apply_ne p (by simp [hk, hp.2])
  rw [Sheet.painted_perform hf hs t, ht]

/-- Painting may fail between filling and stroking, but both paint the same path. -/
theorem painted_of_painting {β : Type} {m : Act (Canvas (Sheet α) α) β}
    (h : Asks (fun p => p == .fill || p == .stroke) m) {q : Painted α}
    (hq : q ∈ (m.run c).2.surface.painted) :
    q ∈ c.surface.painted ∨ q.parts = c.surface.parts ∧ c.surface.parts ≠ [] := by
  have hkeeps := h.keeps (c := c) (P := fun t => t.parts = c.surface.parts ∧
    ∀ q ∈ t.painted, q ∈ c.surface.painted ∨ q.parts = c.surface.parts ∧ c.surface.parts ≠ [])
    (fun k t hk ⟨hparts, hold⟩ => ?_) ⟨rfl, fun q hq => .inl hq⟩
  · exact hkeeps.2 q hq
  have hprim : k.primitive = .fill ∨ k.primitive = .stroke := by
    simpa only [Bool.or_eq_true, beq_iff_eq] using hk
  rcases Sheet.perform_paints hprim with ⟨ink, hink⟩ | ⟨e, he⟩
  · rw [hink]
    refine ⟨(Sheet.parts_paint ink t).trans hparts, fun q hq => ?_⟩
    rcases Sheet.mem_painted_paint hq with hq | hq
    · exact hold q hq
    · exact .inr (hparts ▸ hq)
  · rw [he]
    exact ⟨hparts, hold⟩

theorem painted_step {op : Op α} {q : Painted α}
    (hq : q ∈ (step op c).2.surface.painted) :
    q ∈ c.surface.painted ∨ q.parts = c.surface.parts ∧ c.surface.parts ≠ [] := by
  by_cases hr : op = .reset
  · subst hr
    cases hq
  have hall := asks_act (σ := Sheet α) hr
  by_cases hp : op.asks .fill = false ∧ op.asks .stroke = false
  · exact .inl (painted_of_asks hall hp ▸ hq)
  · refine painted_of_painting (hall.mono fun p hpp => ?_) hq
    cases op with
    | fill _ | stroke _ => simp_all [Op.asks]
    | paint _ => exact hpp
    | command k _ =>
      refine absurd ?_ hp
      rw [Op.asks]
      split <;> exact ⟨rfl, rfl⟩
    | _ => exact absurd ⟨rfl, rfl⟩ hp

end Steps

theorem closedEarly_concat (ops : List (Op α)) (op : Op α) (c : Canvas (Sheet α) α) :
    ClosedEarly (ops ++ [op]) c ↔
      ClosesEarly op (run ops c).2 ∨ ClosedEarly ops c ∧ op ≠ .beginPath ∧ op ≠ .reset := by
  constructor
  · rintro ⟨before, o, after, heq, hclose, hafter⟩
    rcases List.eq_nil_or_concat' after with rfl | ⟨after, x, rfl⟩
    · obtain ⟨rfl, hop⟩ := List.append_inj' heq rfl
      cases hop
      exact .inl hclose
    · rw [← List.cons_append, ← List.append_assoc] at heq
      obtain ⟨rfl, hop⟩ := List.append_inj' heq rfl
      cases hop
      exact .inr ⟨⟨before, o, after, rfl, hclose,
        fun y hy => hafter y (List.mem_append_left _ hy)⟩, hafter op (by simp)⟩
  · rintro (hclose | ⟨⟨before, o, after, rfl, hclose, hafter⟩, hop⟩)
    · exact ⟨ops, op, [], rfl, hclose, by simp⟩
    · refine ⟨before, o, after ++ [op], by simp, hclose, fun y hy => ?_⟩
      rcases List.mem_append.mp hy with hy | hy
      · exact hafter y hy
      · rwa [List.mem_singleton.mp hy]

theorem run_concat (ops : List (Op α)) (op : Op α) (c : Canvas (Sheet α) α) :
    (run (ops ++ [op]) c).2 = (step op (run ops c).2).2 := by
  rw [run_append]
  rfl

theorem sound_run (ops : List (Op α)) {c : Canvas (Sheet α) α} (hc : c.surface.Sound) :
    (run ops c).2.surface.Sound :=
  run_keeps (P := fun c : Canvas (Sheet α) α => c.surface.Sound)
    (fun op _ hc => sound_step op hc) ops hc

/-- A run from an empty path leads to a path that opens with a close exactly if it closed one
early. -/
theorem opening_run_eq_close_iff (ops : List (Op α)) {c : Canvas (Sheet α) α}
    (hc : c.surface.Sound) (hparts : c.surface.parts = []) :
    (run ops c).2.surface.opening? = some .close ↔ ClosedEarly ops c := by
  -- From the end, as whether an operation closes early depends on the sheet it comes to.
  induction ops using List.reverseRecOn with
  | nil => simp [ClosedEarly, run, Sheet.opening?, hparts]
  | append_singleton ops op ih =>
    rw [run_concat, opening_step op (sound_run ops hc), ih, closedEarly_concat]

theorem painted_run {ops : List (Op α)} {c : Canvas (Sheet α) α} {q : Painted α}
    (hq : q ∈ (run ops c).2.surface.painted) :
    q ∈ c.surface.painted ∨ ∃ before after, ops = before ++ after ∧ q.parts ≠ [] ∧
      q.parts = (run before c).2.surface.parts := by
  induction ops using List.reverseRecOn with
  | nil => exact .inl hq
  | append_singleton ops op ih =>
    rw [run_concat] at hq
    rcases painted_step hq with hq | ⟨hparts, hne⟩
    · refine (ih hq).imp_right ?_
      rintro ⟨before, after, rfl, hseen⟩
      exact ⟨before, after ++ [op], by simp, hseen⟩
    · exact .inr ⟨ops, [op], rfl, hparts ▸ hne, hparts⟩

/-- Of every run, failing operations included: the path is in order, and it opens with a close
exactly if it was closed early. What was painted is a path that the run went through. -/
theorem opening_run (ops : List (Op α)) (width height fileName : String) (autoOpen : Bool)
    (unit : AngleUnit) :
    let start : Canvas (Sheet α) α := fresh (Sheet.blank width height fileName) autoOpen unit
    let sheet := (run ops start).2.surface
    Part.FollowStarts sheet.backwards ∧
    (sheet.parts = [] ∨ (∃ z, sheet.parts.head? = some (.move z)) ∨
      sheet.parts.head? = some .close) ∧
    (sheet.parts.head? = some .close ↔ ClosedEarly ops start) ∧
    ∀ q ∈ sheet.painted, ∃ before after, ops = before ++ after ∧ q.parts ≠ [] ∧
      q.parts = (run before start).2.surface.parts := by
  intro start sheet
  have hblank : start.surface.Sound := Sheet.sound_blank width height fileName
  have hsound : sheet.Sound := sound_run ops hblank
  refine ⟨hsound.ordered, ?_, opening_run_eq_close_iff ops hblank rfl, fun q hq => ?_⟩
  · simpa only [Sheet.opening?, List.head?_eq_none_iff] using hsound.opening_cases
  · rcases painted_run hq with hq | hseen
    · cases hq
    · exact hseen

theorem opening_close_painted :
    let start : Canvas (Sheet Float) Float := fresh (Sheet.default "drawing.svg") true .radians
    let sheet := (run [.command ⟨.close, false⟩ [], .fill []] start).2.surface
    Part.pathText sheet.parts = ['Z'] ∧
      sheet.painted.map (fun q => Part.pathText q.parts) = [['Z']] := by
  decide +kernel

end Canvas

end Linework
