import Linework.Proofs.Sheet.Calls
import Linework.Proofs.Sheet.Segments

/-!
# What a primitive does before it is refused

A primitive of the path goes through stages: in each a part is added and the pen moves. Where a
stage cannot be carried out the primitive is refused, and the stages before that one stay. Moves,
lines and curves with a pen to start from have a single stage, so they leave everything as it was.
A curve without a pen has started a subpath by then, and an ellipse has been joined to the path.
-/

set_option autoImplicit false

namespace Linework

/-- A primitive that draws, with numbers for arguments. -/
inductive PathCall (α : Type) where
  | move (p : Point α)
  | segment (g : Segment α)
  | oval (e : Ellipse α) (startAngle endAngle : α) (anticlockwise : Argument α)

def PathCall.call {α : Type} : PathCall α → Call α
  | move p => .moveTo p
  | segment g => g.call
  | oval e startAngle endAngle anticlockwise =>
    .ellipse (Argument.ofPoint e.center) (Argument.ofPoint e.radii) (.number e.rotation)
      (.number startAngle) (.number endAngle) anticlockwise

namespace Sheet

/-- What is done to a path at once: a part is added or none, and the pen goes on from a point, to
which closing leads from now on if the stage opens a subpath. -/
structure Stage (α : Type) where
  part : Option (Part α)
  opens : Bool
  pen : Point α

namespace Stage

variable {α : Type}

def opening (z : Point α) : Stage α := ⟨some (.move z), true, z⟩

def adding (part : Part α) (z : Point α) : Stage α := ⟨some part, false, z⟩

def staying (z : Point α) : Stage α := ⟨none, false, z⟩

def on (m : Stage α) (s : Sheet α) : Sheet α :=
  { s with
    backwards := m.part.toList ++ s.backwards
    current := some m.pen
    start := if m.opens then some m.pen else s.start }

variable [Scalar α]

def checked (m : Stage α) : Except Fault (Stage α) :=
  match m.part.bind Part.nonFinite? with
  | some n => .error (.notWritable n)
  | none => .ok m

end Stage

section Making

variable {α : Type}

def goThrough : List (Except Fault (Stage α)) → Act (Sheet α) Unit
  | [] => pure ()
  | .error e :: _ => throw e
  | .ok m :: rest => do
    modify m.on
    goThrough rest

def through (s : Sheet α) (done : List (Stage α)) : Sheet α := done.foldl (fun t m => m.on t) s

theorem goThrough_error {stages : List (Except Fault (Stage α))} {s t : Sheet α} {e : Fault}
    (h : (goThrough stages).run s = (.error e, t)) :
    ∃ done rest, stages = done.map .ok ++ .error e :: rest ∧ t = s.through done := by
  induction stages generalizing s with
  | nil => cases h
  | cons stage rest ih =>
    cases stage with
    | error e' =>
      cases h
      exact ⟨[], rest, rfl, rfl⟩
    | ok m =>
      rw [goThrough, Act.run_bind_ok (Act.run_modify m.on s)] at h
      obtain ⟨done, rest, rfl, rfl⟩ := ih h
      exact ⟨m :: done, rest, rfl, rfl⟩

end Making

section Stages

variable {α : Type} [Scalar α]

def joinStage (s : Sheet α) (z : Point α) : Except Fault (Stage α) :=
  match s.current with
  | none => (Stage.opening z).checked
  | some p =>
    match p.isClose z with
    | .error e => .error e
    | .ok true => .ok (.staying z)
    | .ok false => (Stage.adding (.line z) z).checked

def pieceStage (s : Sheet α) (image : Option (EllipseImage α)) (piece : EndpointArc α) :
    Except Fault (Stage α) :=
  (Stage.adding (piecePart image piece (s.map piece.finish)) (s.map piece.finish)).checked

def segmentStage (s : Sheet α) (g : Segment α) : Except Fault (Stage α) :=
  (Stage.adding (g.image s.transform) (s.map g.finish)).checked

/-- A curve without a pen to start from starts with a move to its first control point. -/
def startStages (s : Sheet α) (p : Point α) : List (Except Fault (Stage α)) :=
  if s.current.isNone then [(Stage.opening (s.map p)).checked] else []

def segmentStages (s : Sheet α) : Segment α → List (Except Fault (Stage α))
  | .line z =>
    if s.current.isNone then [(Stage.opening (s.map z)).checked] else [s.segmentStage (.line z)]
  | .cubic c => s.startStages c.first ++ [s.segmentStage (.cubic c)]
  | .quadratic q => s.startStages q.control ++ [s.segmentStage (.quadratic q)]

variable [HasAxes α]

def pieceStages (s : Sheet α) (e : Ellipse α) (pieces : List (EndpointArc α)) :
    List (Except Fault (Stage α)) :=
  if pieces.isEmpty then []
  else
    match s.transform.ellipseImage? e.radii e.rotation with
    | .error e => [.error e]
    | .ok image => pieces.map (s.pieceStage image)

def ovalStages (s : Sheet α) (o : Oval α) : List (Except Fault (Stage α)) :=
  match o.pieces with
  | .error e => [.error e]
  | .ok (start, pieces) => s.joinStage (s.map start) :: s.pieceStages o.ellipse pieces

/-- The stages of a primitive on a sheet, up to one that cannot be carried out. -/
def stages (s : Sheet α) : PathCall α → List (Except Fault (Stage α))
  | .move p => [(Stage.opening (s.map p)).checked]
  | .segment g => s.segmentStages g
  | .oval e startAngle endAngle anticlockwise =>
    match Oval.ofArguments (Argument.ofPoint e.center) (Argument.ofPoint e.radii)
      (.number e.rotation) (.number startAngle) (.number endAngle) anticlockwise with
    | .error e => [.error e]
    | .ok o => s.ovalStages o

end Stages

section Performing

variable {α : Type}

theorem goThrough_append (xs ys : List (Except Fault (Stage α))) :
    goThrough (xs ++ ys) = goThrough xs >>= fun _ => goThrough ys := by
  induction xs with
  | nil => rfl
  | cons stage xs ih =>
    cases stage with
    | error e => rfl
    | ok m => rw [List.cons_append, goThrough, goThrough, ih, bind_assoc]

theorem run_bind_stages {m n : Act (Sheet α) Unit} {xs ys : List (Except Fault (Stage α))}
    {s : Sheet α} (hm : m.run s = (goThrough xs).run s)
    (hn : ∀ t, m.run s = (.ok (), t) → n.run t = (goThrough ys).run t) :
    (m >>= fun _ => n).run s = (goThrough (xs ++ ys)).run s := by
  rw [goThrough_append]
  rcases h : m.run s with ⟨e | _, t⟩
  · rw [Act.run_bind_error h, Act.run_bind_error (hm ▸ h)]
  · rw [Act.run_bind_ok h, Act.run_bind_ok (hm ▸ h), hn t h]

variable [Scalar α]

theorem run_append_stage {m : Stage α} {part : Part α} (hm : m.part = some part)
    {f : Sheet α → Sheet α} (hf : ∀ s, f { s with backwards := part :: s.backwards } = m.on s)
    (s : Sheet α) :
    (append part >>= fun _ => modify f).run s = (goThrough [m.checked]).run s := by
  rw [Stage.checked, hm, Option.bind_some]
  cases hn : part.nonFinite? with
  | none =>
    rw [Act.run_bind_ok (run_append_of_finite hn s), Act.run_modify, hf]
    rfl
  | some n =>
    rw [Act.run_bind_error (run_append_of_nonFinite hn s)]
    rfl

theorem run_opening (z : Point α) (s : Sheet α) :
    (append (.move z) >>= fun _ => modify (openAt z)).run s =
      (goThrough [(Stage.opening z).checked]).run s :=
  run_append_stage rfl (fun _ => rfl) s

theorem run_adding (part : Part α) (z : Point α) (s : Sheet α) :
    (append part >>= fun _ => modify (setCurrent z)).run s =
      (goThrough [(Stage.adding part z).checked]).run s :=
  run_append_stage rfl (fun _ => rfl) s

theorem run_moveTo (p : Point α) (s : Sheet α) :
    (moveTo p).run s = (goThrough [(Stage.opening (s.map p)).checked]).run s := by
  rw [moveTo, Act.run_bind_ok (Act.run_get s)]
  exact run_opening _ s

theorem run_lineTo (z : Point α) (s : Sheet α) :
    (lineTo z).run s = (goThrough (s.segmentStages (.line z))).run s := by
  rw [lineTo, Act.run_bind_ok (Act.run_get s), segmentStages]
  dsimp only
  split
  · exact run_opening _ s
  · exact run_adding _ _ s

theorem run_cubicTo {s : Sheet α} (hs : s.current.isNone = false) (c : CubicTo α) :
    (cubicTo c.first c.second c.finish).run s = (goThrough [s.segmentStage (.cubic c)]).run s := by
  rw [cubicTo, Act.run_bind_ok (run_ensureCurrent_of_current _ hs), Act.run_bind_ok (Act.run_get s)]
  exact run_adding _ _ s

theorem run_quadraticTo {s : Sheet α} (hs : s.current.isNone = false) (q : QuadraticTo α) :
    (quadraticTo q.control q.finish).run s = (goThrough [s.segmentStage (.quadratic q)]).run s := by
  rw [quadraticTo, Act.run_bind_ok (run_ensureCurrent_of_current _ hs),
    Act.run_bind_ok (Act.run_get s)]
  exact run_adding _ _ s

theorem run_startCurve (p : Point α) (s : Sheet α) :
    (startCurve (.number p.x) (.number p.y)).run s = (goThrough (s.startStages p)).run s := by
  rw [startCurve, Act.run_bind_ok (Act.run_get s), startStages]
  split
  · exact run_moveTo p s
  · rfl

theorem ensures_startCurve (x y : Argument α) :
    Act.Ensures (fun _ => True) (fun t => t.current.isNone = false)
      (startCurve x y : Act (Sheet α) Unit) := by
  refine Act.ensures_bind_get fun s _ => ?_
  split
  · refine Act.ensures_bind (Act.ensures_true _) fun p => ?_
    refine Act.ensures_bind (Act.ensures_true _) fun _ => ?_
    exact Act.ensures_bind (Act.ensures_true _) fun _ => Act.ensures_modify fun _ _ => rfl
  · next hs =>
    exact (Act.ensures_pure _).imp (fun t ht => ht ▸ (Bool.not_eq_true _).mp hs)
      fun _ ht => ht

omit [Scalar α] in
theorem OnlyPath.transform {β : Type} {m : Act (Sheet α) β} (h : OnlyPath m) {s t : Sheet α}
    {r : Except Fault β} (hr : m.run s = (r, t)) : t.transform = s.transform := by
  have ht := h.part Sheet.transform s
  rw [hr] at ht
  exact ht

theorem segmentStage_congr {s t : Sheet α} (h : t.transform = s.transform) :
    t.segmentStage = s.segmentStage := by
  funext g
  rw [segmentStage, segmentStage, map, map, h]

theorem pieceStage_congr {s t : Sheet α} (h : t.transform = s.transform) :
    t.pieceStage = s.pieceStage := by
  funext image piece
  rw [pieceStage, pieceStage, map, map, h]

theorem run_curve (p : Point α) {m : Act (Sheet α) Unit} {g : Segment α}
    (hm : ∀ t : Sheet α, t.current.isNone = false → m.run t = (goThrough [t.segmentStage g]).run t)
    (s : Sheet α) :
    (startCurve (.number p.x) (.number p.y) >>= fun _ => m).run s =
      (goThrough (s.startStages p ++ [s.segmentStage g])).run s := by
  apply run_bind_stages (run_startCurve p s)
  intro t ht
  rw [hm t (ensures_startCurve _ _ s _ t trivial ht),
    segmentStage_congr ((onlyPath_startCurve _ _).transform ht)]

theorem run_joinTo (z : Point α) (s : Sheet α) :
    (joinTo z).run s = (goThrough [s.joinStage z]).run s := by
  rw [joinTo, Act.run_bind_ok (Act.run_get s), joinStage]
  cases s.current with
  | none => exact run_opening z s
  | some p =>
    dsimp only
    cases p.isClose z with
    | error e => rfl
    | ok near =>
      cases near with
      | true => rfl
      | false => exact run_adding _ _ s

theorem run_drawPieces (image : Option (EllipseImage α)) (pieces : List (EndpointArc α))
    (s : Sheet α) :
    (drawPieces image pieces).run s = (goThrough (pieces.map (s.pieceStage image))).run s := by
  induction pieces generalizing s with
  | nil => rfl
  | cons piece rest ih =>
    rw [drawPieces, Act.run_bind_ok (Act.run_get s), ← bind_assoc, List.map_cons,
      ← List.singleton_append]
    apply run_bind_stages (run_adding _ _ s)
    intro t ht
    -- the later pieces are placed by the transform, which a piece leaves alone
    have hpath := onlyPath_append_modify (piecePart image piece (s.map piece.finish))
      (f := setCurrent (s.map piece.finish)) fun _ => rfl
    rw [ih t, pieceStage_congr (OnlyPath.transform hpath ht)]

variable [HasAxes α]

theorem run_ellipse (o : Oval α) (s : Sheet α) :
    (ellipse o).run s = (goThrough (s.ovalStages o)).run s := by
  rw [ellipse, ovalStages]
  cases o.pieces with
  | error e => rfl
  | ok r =>
    obtain ⟨start, pieces⟩ := r
    change _ = (goThrough ([s.joinStage (s.map start)] ++ s.pieceStages o.ellipse pieces)).run s
    apply run_bind_stages (run_joinTo (s.map start) s)
    intro t ht
    have htransform := OnlyPath.transform (onlyPath_joinTo _) ht
    rw [pieceStages]
    split
    · rfl
    · rw [Act.run_bind_ok (Act.run_get t), htransform]
      cases s.transform.ellipseImage? o.ellipse.radii o.ellipse.rotation with
      | error e => rfl
      | ok image =>
        rw [Act.ofExcept_ok, pure_bind, run_drawPieces, pieceStage_congr htransform]

omit [Scalar α] [HasAxes α] in
theorem bind_draw (m n : Act (Sheet α) Unit) :
    (m >>= fun _ => draw n) = draw (m >>= fun _ => n) :=
  (bind_assoc m (fun _ => n) fun _ => pure []).symm

omit [Scalar α] [HasAxes α] in
theorem run_of_draw_error {m : Act (Sheet α) Unit} {s t : Sheet α} {e : Fault}
    (h : (draw m).run s = (.error e, t)) : m.run s = (.error e, t) := by
  rw [draw, Act.run_bind] at h
  rcases hm : m.run s with ⟨f | u, v⟩
  · rw [hm] at h
    cases h
    rfl
  · rw [hm] at h
    cases h

omit [Scalar α] [HasAxes α] in
theorem run_draw_congr {m n : Act (Sheet α) Unit} {s : Sheet α} (h : m.run s = n.run s) :
    (draw m).run s = (draw n).run s := by
  rw [draw, Act.run_bind, h, draw, Act.run_bind]

/-- A primitive that draws goes through its stages. -/
theorem run_pathCall (k : PathCall α) (s : Sheet α) :
    (Surface.perform k.call : Act (Sheet α) _).run s = (draw (goThrough (s.stages k))).run s := by
  cases k with
  | move p => exact run_draw_congr (run_moveTo p s)
  | segment g =>
    cases g with
    | line z => exact run_draw_congr (run_lineTo z s)
    | cubic c =>
      have hp : (Surface.perform c.call : Act (Sheet α) _) =
          (startCurve (.number c.first.x) (.number c.first.y) >>= fun _ =>
            draw (cubicTo c.first c.second c.finish)) := rfl
      rw [PathCall.call, Segment.call, hp, bind_draw]
      exact run_draw_congr (run_curve c.first (fun t ht => run_cubicTo ht c) s)
    | quadratic q =>
      have hp : (Surface.perform q.call : Act (Sheet α) _) =
          (startCurve (.number q.control.x) (.number q.control.y) >>= fun _ =>
            draw (quadraticTo q.control q.finish)) := rfl
      rw [PathCall.call, Segment.call, hp, bind_draw]
      exact run_draw_congr (run_curve q.control (fun t ht => run_quadraticTo ht q) s)
  | oval e startAngle endAngle anticlockwise =>
    have hp : (Surface.perform (PathCall.oval e startAngle endAngle anticlockwise).call :
        Act (Sheet α) _) =
        (Act.ofExcept (Oval.ofArguments (Argument.ofPoint e.center) (Argument.ofPoint e.radii)
          (.number e.rotation) (.number startAngle) (.number endAngle) anticlockwise) >>=
            fun o => draw (ellipse o)) := rfl
    rw [hp, stages]
    cases Oval.ofArguments (Argument.ofPoint e.center) (Argument.ofPoint e.radii)
      (.number e.rotation) (.number startAngle) (.number endAngle) anticlockwise with
    | error e => rfl
    | ok o =>
      rw [Act.ofExcept_ok, pure_bind]
      exact run_draw_congr (run_ellipse o s)

end Performing

section Refusals

variable {α : Type}

theorem length_through (s : Sheet α) (done : List (Stage α)) :
    (s.through done).backwards.length =
      s.backwards.length + (done.flatMap fun m => m.part.toList).length := by
  induction done generalizing s with
  | nil => rfl
  | cons m done ih =>
    have hstep : s.through (m :: done) = (m.on s).through done := rfl
    rw [hstep, ih, List.flatMap_cons, Stage.on, List.length_append, List.length_append]
    omega

/-- Stages leave a sheet as it was only if each of them does, as only the first of them may add no
part. -/
theorem through_eq_iff {s : Sheet α} {done : List (Stage α)}
    (hparts : ∀ m ∈ done.tail, m.part ≠ none) :
    s.through done = s ↔ ∀ m ∈ done, m.on s = s := by
  constructor
  · intro h
    -- no part can have been added, and stages after the first would add one
    have hlength := s.length_through done
    rw [h] at hlength
    have hnil : done.flatMap (fun m => m.part.toList) = [] := List.length_eq_zero_iff.mp (by omega)
    have hnone : ∀ m ∈ done, m.part = none := by simpa using hnil
    cases done with
    | nil => simp
    | cons m rest =>
      cases rest with
      | nil =>
        intro n hn
        obtain rfl := List.mem_singleton.mp hn
        exact h
      | cons n rest =>
        exact absurd (hnone n (by simp)) (hparts n List.mem_cons_self)
  · intro h
    induction done with
    | nil => rfl
    | cons m done ih =>
      have hstep : s.through (m :: done) = (m.on s).through done := rfl
      rw [hstep, h m List.mem_cons_self]
      exact ih (fun n hn => hparts n (List.mem_of_mem_tail hn))
        fun n hn => h n (List.mem_cons_of_mem m hn)

variable [Scalar α]

theorem Stage.eq_of_checked {m n : Stage α} (h : m.checked = .ok n) : n = m := by
  rw [Stage.checked] at h
  split at h
  · cases h
  · exact (Except.ok.inj h).symm

variable [HasAxes α]

theorem part_of_mem_pieceStages {s : Sheet α} {e : Ellipse α} {pieces : List (EndpointArc α)}
    {m : Stage α} (h : .ok m ∈ s.pieceStages e pieces) : m.part ≠ none := by
  rw [pieceStages] at h
  split at h
  · simp at h
  · split at h
    · simp at h
    · obtain ⟨piece, -, hpiece⟩ := List.mem_map.mp h
      rw [Stage.eq_of_checked hpiece]
      exact Option.some_ne_none _

theorem part_of_mem_tail {s : Sheet α} {k : PathCall α} {m : Stage α}
    (h : .ok m ∈ (s.stages k).tail) : m.part ≠ none := by
  -- both curves have at most the start of a subpath before their own part
  have hcurve : ∀ p g, .ok m ∈ (s.startStages p ++ [s.segmentStage g]).tail → m.part ≠ none := by
    intro p g h
    have hg : .ok m = s.segmentStage g := by
      rw [startStages] at h
      split at h
      · simpa using h
      · simp at h
    rw [Stage.eq_of_checked hg.symm]
    exact Option.some_ne_none _
  cases k with
  | move p => simp [stages] at h
  | segment g =>
    cases g with
    | line z =>
      rw [stages, segmentStages] at h
      split at h <;> simp at h
    | cubic c => exact hcurve c.first _ h
    | quadratic q => exact hcurve q.control _ h
  | oval e startAngle endAngle anticlockwise =>
    rw [stages] at h
    split at h
    · simp at h
    · rw [ovalStages] at h
      split at h
      · simp at h
      · exact part_of_mem_pieceStages h

theorem onlyPath_pathCall (k : PathCall α) :
    OnlyPath (Surface.perform k.call : Act (Sheet α) _) := by
  cases k with
  | move p => exact onlyPath_draw (onlyPath_moveTo p)
  | segment g =>
    cases g with
    | line z => exact onlyPath_draw (onlyPath_lineTo z)
    | cubic c =>
      exact Act.leaves_bind (onlyPath_startCurve _ _) fun _ =>
        onlyPath_draw (onlyPath_cubicTo _ _ _)
    | quadratic q =>
      exact Act.leaves_bind (onlyPath_startCurve _ _) fun _ =>
        onlyPath_draw (onlyPath_quadraticTo _ _)
  | oval e startAngle endAngle anticlockwise =>
    exact Act.leaves_bind (Act.leaves_ofExcept _) fun o => onlyPath_draw (onlyPath_ellipse o)

def Direct (s : Sheet α) : PathCall α → Prop
  | .move _ => True
  | .segment g => g.curve? = none ∨ s.current ≠ none
  | .oval .. => False

theorem length_stages_of_direct {s : Sheet α} {k : PathCall α} (h : s.Direct k) :
    (s.stages k).length = 1 := by
  have hstart : s.current ≠ none → ∀ p, s.startStages p = [] := by
    intro hs p
    rw [startStages, if_neg (by simpa using hs)]
  cases k with
  | move p => rfl
  | segment g =>
    cases g with
    | line z =>
      rw [stages, segmentStages]
      split <;> rfl
    | cubic c =>
      have hs : s.current ≠ none := h.resolve_left (Option.some_ne_none _)
      rw [stages, segmentStages, hstart hs]
      rfl
    | quadratic q =>
      have hs : s.current ≠ none := h.resolve_left (Option.some_ne_none _)
      rw [stages, segmentStages, hstart hs]
      rfl
  | oval e startAngle endAngle anticlockwise => exact h.elim

/-- A primitive that is refused leaves the transforms as they were, and the path as its stages
before the refused one leave it. So it has done nothing exactly if these change nothing, as always
with a single stage. -/
theorem refused_pathCall {k : PathCall α} {s t : Sheet α} {e : Fault}
    (h : (Surface.perform k.call : Act (Sheet α) _).run s = (.error e, t)) :
    t.transform = s.transform ∧ t.saved = s.saved ∧
      (∃ done rest, s.stages k = done.map .ok ++ .error e :: rest ∧ t = s.through done ∧
        (t = s ↔ ∀ m ∈ done, m.on s = s)) ∧
      (s.Direct k → t = s) := by
  have htransform := OnlyPath.transform (onlyPath_pathCall k) h
  have hsaved : t.saved = s.saved := by
    have hs := saved_onlyPath (onlyPath_pathCall k) s
    rwa [h] at hs
  rw [run_pathCall] at h
  obtain ⟨done, rest, hstages, ht⟩ := goThrough_error (run_of_draw_error h)
  have htail : ∀ m ∈ done.tail, m.part ≠ none := by
    intro m hm
    apply part_of_mem_tail (s := s) (k := k)
    rw [hstages]
    cases done with
    | nil => simp at hm
    | cons n done => simp [List.mem_map, show m ∈ done from hm]
  refine ⟨htransform, hsaved, ⟨done, rest, hstages, ht, ht ▸ through_eq_iff htail⟩, ?_⟩
  intro hdirect
  have hlength := length_stages_of_direct hdirect
  rw [hstages] at hlength
  have hnil : done = [] := by
    rw [List.length_append, List.length_map, List.length_cons] at hlength
    exact List.length_eq_zero_iff.mp (by omega)
  rw [ht, hnil]
  rfl

theorem refused_infinite_curve :
    let s : Sheet Float := Sheet.default "drawing.svg"
    let k : PathCall Float := .segment (.cubic ⟨⟨0, 0⟩, ⟨1, 1⟩, ⟨Scalar.infinite, 0⟩⟩)
    ∃ t : Sheet Float, (Surface.perform k.call : Act (Sheet Float) _).run s =
      (.error (.notWritable .positive), t) ∧ t.current ≠ s.current := by
  intro s k
  have hrefused : ((Surface.perform k.call : Act (Sheet Float) _).run s).1 =
      .error (.notWritable .positive) := by decide +kernel
  have hcurrent : ((Surface.perform k.call : Act (Sheet Float) _).run s).2.current ≠ s.current := by
    decide +kernel
  exact ⟨_, Prod.ext hrefused rfl, hcurrent⟩

theorem refused_pathCall_started :
    ∃ (k : PathCall Float) (s t : Sheet Float) (e : Fault),
      (Surface.perform k.call : Act (Sheet Float) _).run s = (.error e, t) ∧
        t.transform = s.transform ∧ t.saved = s.saved ∧ t ≠ s := by
  obtain ⟨t, ht, hcurrent⟩ := refused_infinite_curve
  obtain ⟨htransform, hsaved, -⟩ := refused_pathCall ht
  exact ⟨_, _, t, _, ht, htransform, hsaved, fun h => hcurrent (congrArg Sheet.current h)⟩

theorem not_unchanged_after_refused_curve :
    ¬ ∀ (k : PathCall Float) (s t : Sheet Float) (e : Fault),
      (Surface.perform k.call : Act (Sheet Float) _).run s = (.error e, t) →
        t.parts = s.parts ∧ t.current = s.current ∧ t.start = s.start ∧
          t.transform = s.transform ∧ t.saved = s.saved := by
  intro h
  obtain ⟨t, ht, hcurrent⟩ := refused_infinite_curve
  exact hcurrent (h _ _ t _ ht).2.1

end Refusals

end Sheet

end Linework
