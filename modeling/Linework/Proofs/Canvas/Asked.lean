import Linework.Proofs.Canvas.PathFaults
import Linework.Proofs.Canvas.Rows

/-!
# What a surface is asked for

Each operation asks the surface for primitives of a few sorts only, and changes it in no other way,
a reset aside. So what the primitives of these sorts keep is kept by the operation, whether it fails
or not.
-/

set_option autoImplicit false

namespace Linework

open Outline (Command Element)

def Primitive.draws : Primitive → Bool
  | moveTo | lineTo | cubicTo | quadraticTo | ellipse => true
  | _ => false

theorem Primitive.isPath_of_draws {p : Primitive} (h : p.draws) : p.isPath := by
  revert h
  cases p <;> decide

/-- The primitives that an operation may ask for. -/
def Op.asks {α : Type} : Op α → Primitive → Bool
  | .command k _ => if k.verb = .close then (· == .closePath) else Primitive.draws
  | .path _ => Primitive.isPath
  | .oval _ | .roundedCorner .. => Primitive.draws
  | .beginPath => (· == .beginPath)
  | .translate _ => (· == .translate)
  | .scale _ => (· == .scale)
  | .rotate _ => (· == .rotate)
  | .transform _ => (· == .transform)
  | .setTransform _ => (· == .setTransform)
  | .save => (· == .save)
  | .restore => (· == .restore)
  | .revert => fun p => p == .restore || p == .save
  | .fill _ => (· == .fill)
  | .stroke _ => (· == .stroke)
  | .paint _ => fun p => p == .fill || p == .stroke
  | .setUnit _ | .set _ | .reset => fun _ => false

namespace Canvas

section Rules

variable {σ α β γ : Type} [Surface σ α] {p q : Primitive → Bool}

/-- The surface is left alone or performs one call, of a primitive of the given sort. -/
def Asked (p : Primitive → Bool) (c t : Canvas σ α) : Prop :=
  t.surface = c.surface ∨ ∃ k : Call α, p k.primitive ∧
    t.surface = ((Surface.perform k : Act σ (List Warning)).run c.surface).2

def Asks (p : Primitive → Bool) (m : Act (Canvas σ α) β) : Prop := ∀ c, Act.Moves (Asked p) m c

theorem Asks.mono {m : Act (Canvas σ α) β} (h : Asks p m) (hpq : ∀ k, p k → q k) : Asks q m := by
  intro c
  refine Relation.ReflTransGen.mono ?_ _ _ (h c)
  rintro s t (hs | ⟨k, hk, hs⟩)
  · exact .inl hs
  · exact .inr ⟨k, hpq _ hk, hs⟩

theorem Asks.keeps {P : σ → Prop} {m : Act (Canvas σ α) β} (h : Asks p m)
    (hk : ∀ (k : Call α) (s : σ), p k.primitive → P s →
      P ((Surface.perform k : Act σ (List Warning)).run s).2)
    {c : Canvas σ α} (hc : P c.surface) : P (m.run c).2.surface := by
  have hmoves := h c
  rw [Act.Moves] at hmoves
  generalize (m.run c).2 = t at hmoves ⊢
  induction hmoves with
  | refl => exact hc
  | tail _ hst ih =>
    rcases hst with hs | ⟨k, hp, hs⟩
    · rwa [hs]
    · rw [hs]
      exact hk k _ hp ih

theorem asks_reads {m : Act (Canvas σ α) β} (h : ∀ c, ∃ e, m.run c = (e, c)) : Asks p m :=
  fun c => Act.moves_of_reads (h c).choose_spec

theorem asks_pure (b : β) : Asks p (pure b : Act (Canvas σ α) β) := Act.moves_pure b

theorem asks_throw (e : Fault) : Asks p (throw e : Act (Canvas σ α) β) := Act.moves_throw e

theorem asks_modify {f : Canvas σ α → Canvas σ α} (hf : ∀ c, (f c).surface = c.surface) :
    Asks p (modify f : Act (Canvas σ α) PUnit) :=
  fun c => Act.moves_of_step (.inl (hf c))

theorem asks_movePen (f : Pen α → Pen α) : Asks p (movePen f : Act (Canvas σ α) Unit) :=
  asks_modify fun _ => rfl

theorem asks_bind {m : Act (Canvas σ α) β} {f : β → Act (Canvas σ α) γ} (hm : Asks p m)
    (hf : ∀ b, Asks p (f b)) : Asks p (m >>= f) :=
  fun c => Act.moves_bind (hm c) fun b t _ => hf b t

theorem asks_get {f : Canvas σ α → Act (Canvas σ α) β} (hf : ∀ c, Asks p (f c)) :
    Asks p (get >>= f) :=
  fun c => Act.moves_bind_get (hf c c)

theorem asks_ofExcept {e : Except Fault β} {f : β → Act (Canvas σ α) γ} (hf : ∀ b, Asks p (f b)) :
    Asks p (Act.ofExcept e >>= f) :=
  fun c => Act.moves_bind_ofExcept fun b _ => hf b c

theorem asks_perform {k : Call α} (hk : p k.primitive) :
    Asks p (perform k : Act (Canvas σ α) (List Warning)) := by
  refine fun c => Act.moves_of_step (.inr ⟨k, hk, ?_⟩)
  rcases h : (Surface.perform k : Act σ (List Warning)).run c.surface with ⟨e | w, s⟩
  · rw [run_perform_error h]
  · rw [run_perform_ok h]

theorem asks_draw {k : Call α} (hk : p k.primitive) : Asks p (draw k : Act (Canvas σ α) Unit) :=
  asks_bind (asks_perform hk) fun _ => asks_pure ()

theorem asks_drawCalls {calls : List (Call α)} (h : ∀ k ∈ calls, p k.primitive) :
    Asks p (drawCalls calls : Act (Canvas σ α) Unit) := by
  induction calls with
  | nil => exact asks_pure ()
  | cons k rest ih =>
    rw [List.forall_mem_cons] at h
    exact asks_bind (asks_draw h.1) fun _ => ih h.2

theorem asks_forEach {f : β → Act (Canvas σ α) Unit} (hf : ∀ b, Asks p (f b)) (bs : List β) :
    Asks p (Act.forEach f bs) := by
  induction bs with
  | nil => exact asks_pure ()
  | cons b rest ih => exact asks_bind (hf b) fun _ => ih

theorem asks_quietly {m : Act (Canvas σ α) Unit} (h : Asks p m) : Asks p (quietly m) :=
  asks_bind h fun _ => asks_pure _

end Rules

section Drawers

variable {σ α : Type} [Surface σ α]

theorem asks_drawSegments (gs : List (Segment α)) :
    Asks Primitive.draws (drawSegments gs : Act (Canvas σ α) Unit) := by
  refine asks_bind (asks_drawCalls fun k hk => ?_) fun _ => asks_movePen _
  obtain ⟨g, -, rfl⟩ := List.mem_map.mp hk
  cases g <;> rfl

theorem asks_drawLines (zs : List (Point α)) :
    Asks Primitive.draws (drawLines zs : Act (Canvas σ α) Unit) := by
  rw [drawLines_eq_segments]
  exact asks_drawSegments _

theorem asks_moveTo (z : Point α) : Asks Primitive.draws (moveTo z : Act (Canvas σ α) Unit) :=
  asks_bind (asks_draw rfl) fun _ => asks_movePen _

theorem asks_ensureOpenAt (z : Point α) :
    Asks Primitive.draws (ensureOpenAt z : Act (Canvas σ α) Unit) := by
  refine asks_get fun c => ?_
  split
  · exact asks_pure ()
  split
  · exact asks_bind (asks_movePen _) fun _ => asks_draw rfl
  · exact asks_throw _

theorem asks_lineThrough (zs : List (Point α)) :
    Asks Primitive.draws (lineThrough zs : Act (Canvas σ α) Unit) := by
  cases zs with
  | nil => exact asks_pure ()
  | cons z rest => exact asks_bind (asks_ensureOpenAt z) fun _ => asks_drawLines _

theorem asks_requireCurrent {p : Primitive → Bool} {f : Point α → Act (Canvas σ α) Unit}
    (hf : ∀ z, Asks p (f z)) : Asks p (requireCurrent >>= f) :=
  asks_get fun _ => asks_ofExcept hf

theorem asks_close : Asks (· == .closePath) (close : Act (Canvas σ α) Unit) :=
  asks_bind (asks_draw rfl) fun _ => asks_movePen _

end Drawers

section Commands

variable {σ α : Type} [Scalar α] [Surface σ α]

theorem asks_drawNumbers (k : Command) (xs : List α) :
    Asks Primitive.draws (drawNumbers k xs : Act (Canvas σ α) Unit) := by
  refine asks_bind ?_ fun _ => asks_get fun d => asks_drawSegments _
  rw [openFor.eq_def]
  split
  · split
    · exact asks_ensureOpenAt _
    · exact asks_pure ()
  · exact asks_pure ()

theorem asks_row {k : Command} (hr : k.verb.readsAhead) (hk : k.verb.drawsSegments)
    (as : List (Argument α)) : Asks Primitive.draws (carryOut k as : Act (Canvas σ α) Unit) := by
  intro c
  rw [Act.Moves, run_carryOut hr hk]
  exact asks_bind (asks_reads (lookFor_reads k))
    (fun _ => asks_ofExcept fun xs => asks_drawNumbers k xs) c

theorem asks_move (relative : Bool) (as : List (Argument α)) :
    Asks Primitive.draws (move relative as : Act (Canvas σ α) Unit) := by
  match as with
  | [] | [_] => exact asks_pure ()
  | x :: y :: rest =>
    refine asks_ofExcept fun z => asks_get fun c => asks_bind (asks_moveTo _) fun _ => ?_
    split
    · exact asks_pure ()
    · exact asks_row (k := ⟨.line, relative⟩) rfl rfl rest

theorem asks_axisLine (step : Point α → α → Point α) (as : List (Argument α)) :
    Asks Primitive.draws (axisLine step as : Act (Canvas σ α) Unit) := by
  refine asks_requireCurrent fun z => ?_
  rcases h : Argument.reals as with e | xs
  · rw [drawAlong_of_error step z h]
    refine asks_bind (asks_drawCalls fun k hk => ?_) fun _ => asks_throw e
    obtain ⟨w, -, rfl⟩ := List.mem_map.mp hk
    rfl
  · rw [drawAlong_of_reals step z h]
    exact asks_drawLines _

theorem asks_arcSegment (a : ArcTo (Argument α)) (finish : Point α) :
    Asks Primitive.draws (arcSegment a finish : Act (Canvas σ α) Unit) := by
  rw [arcSegment]
  split
  · exact asks_lineThrough [finish]
  refine asks_requireCurrent fun start => ?_
  split
  · exact asks_movePen _
  · exact asks_ofExcept fun _ => asks_ofExcept fun _ =>
      asks_bind (asks_draw rfl) fun _ => asks_movePen _

theorem asks_arcs (relative : Bool) (as : List (ArcTo (Argument α))) :
    Asks Primitive.draws (arcs relative as : Act (Canvas σ α) Unit) := by
  rw [arcs_eq_forEach]
  refine asks_forEach (fun a => ?_) as
  rw [arcFrom]
  split
  · exact asks_requireCurrent fun _ => asks_ofExcept fun _ => asks_arcSegment a _
  · exact asks_ofExcept fun finish => asks_arcSegment a finish

theorem asks_carryOut {k : Command} (hk : k.verb ≠ .close) (as : List (Argument α)) :
    Asks Primitive.draws (carryOut k as : Act (Canvas σ α) Unit) := by
  obtain ⟨v, relative⟩ := k
  cases v with
  | line | cubic | smoothCubic | quadratic | smoothQuadratic => exact asks_row rfl rfl as
  | move => exact asks_move relative as
  | horizontal | vertical => exact asks_axisLine _ as
  | arc => exact asks_arcs relative _
  | close => exact absurd rfl hk

theorem asks_command (k : Command) (as : List (Argument α)) :
    Asks (Op.command k as).asks (command k as : Act (Canvas σ α) Unit) := by
  rw [command]
  split
  · rw [Op.asks]
    split
    · next hv =>
      rw [carryOut, hv]
      exact asks_close
    · next hv => exact asks_carryOut hv as
  · exact asks_throw _

theorem asks_command_isPath (k : Command) (as : List (Argument α)) :
    Asks Primitive.isPath (command k as : Act (Canvas σ α) Unit) := by
  refine (asks_command k as).mono fun p hp => ?_
  rw [Op.asks] at hp
  split at hp
  · rw [beq_iff_eq.mp hp]
    rfl
  · exact Primitive.isPath_of_draws hp

theorem asks_path (text : String) :
    Asks Primitive.isPath (path text : Act (Canvas σ α) Unit) := by
  refine asks_ofExcept fun es => ?_
  rw [elements_eq_forEach]
  exact asks_forEach (fun e => asks_command_isPath _ _) es

theorem asks_oval (r : OvalRequest α) :
    Asks Primitive.draws (oval r : Act (Canvas σ α) Unit) := by
  refine asks_get fun c => asks_ofExcept fun r => asks_ofExcept fun radii => ?_
  split
  · exact asks_throw _
  refine asks_ofExcept fun o => asks_ofExcept fun arc => ?_
  have hdraw : Asks Primitive.draws (draw r.call >>= fun _ =>
      movePen (fun p => p.moveTo arc.finish) : Act (Canvas σ α) Unit) :=
    asks_bind (asks_draw rfl) fun _ => asks_movePen _
  split
  · exact hdraw
  · exact asks_bind (asks_moveTo _) fun _ => hdraw

theorem asks_roundedCorner (p1 p2 : Point (Argument α)) (r : Argument α) :
    Asks Primitive.draws (roundedCorner p1 p2 r : Act (Canvas σ α) Unit) := by
  refine asks_ofExcept fun radius => ?_
  split
  · exact asks_throw _
  refine asks_ofExcept fun q1 => asks_ofExcept fun q2 => ?_
  refine asks_bind (asks_ensureOpenAt q1) fun _ => asks_get fun c => asks_ofExcept fun fillet => ?_
  cases fillet with
  | none => exact asks_drawLines _
  | some f =>
    exact asks_bind (asks_draw rfl) fun _ => asks_bind (asks_draw rfl) fun _ => asks_movePen _

end Commands

section Steps

variable {σ α : Type} [Surface σ α] {p : Primitive → Bool}

theorem asks_lifting {k : Call α} (hk : p k.primitive) :
    Asks p (lifting k : Act (Canvas σ α) Unit) :=
  asks_bind (asks_draw hk) fun _ => asks_movePen _

theorem asks_restore : Asks (· == .restore) (restore : Act (Canvas σ α) (List Warning)) := by
  refine asks_get fun c => ?_
  split
  · exact asks_pure _
  · exact asks_bind (asks_draw rfl) fun _ => asks_bind (asks_modify fun _ => rfl) fun _ =>
      asks_pure _

theorem asks_revert : Asks (fun p => p == .restore || p == .save)
    (revert : Act (Canvas σ α) (List Warning)) := by
  refine asks_get fun c => ?_
  split
  · exact asks_pure _
  · exact asks_bind (asks_draw rfl) fun _ => asks_bind (asks_draw rfl) fun _ =>
      asks_bind (asks_modify fun _ => rfl) fun _ => asks_pure _

theorem asks_paint (changes : Changes) : Asks (fun p => p == .fill || p == .stroke)
    (paint changes : Act (Canvas σ α) (List Warning)) :=
  asks_get fun _ => asks_ofExcept fun _ => asks_bind (asks_perform rfl) fun _ =>
    asks_bind (asks_perform rfl) fun _ => asks_pure _

variable [Scalar α]

/-- An operation asks for nothing but primitives of its own sorts, whatever comes of them. -/
theorem asks_act {op : Op α} (h : op ≠ .reset) :
    Asks op.asks (act op : Act (Canvas σ α) (List Warning)) := by
  cases op with
  | command k as => exact asks_quietly (asks_command k as)
  | path text => exact asks_quietly (asks_path text)
  | oval r => exact asks_quietly (asks_oval r)
  | roundedCorner p1 p2 r => exact asks_quietly (asks_roundedCorner p1 p2 r)
  | beginPath | translate _ | scale _ | transform _ | setTransform _ =>
    exact asks_quietly (asks_lifting rfl)
  | rotate angle =>
    exact asks_quietly (asks_get fun _ => asks_ofExcept fun _ => asks_lifting rfl)
  | save => exact asks_quietly (asks_bind (asks_draw rfl) fun _ => asks_modify fun _ => rfl)
  | restore => exact asks_restore
  | revert => exact asks_revert
  | setUnit unit => exact asks_quietly (asks_ofExcept fun _ => asks_movePen _)
  | set changes =>
    exact asks_quietly (asks_get fun _ => asks_ofExcept fun _ => asks_modify fun _ => rfl)
  | fill changes => exact asks_get fun _ => asks_ofExcept fun _ => asks_perform rfl
  | stroke changes => exact asks_get fun _ => asks_ofExcept fun _ => asks_perform rfl
  | paint changes => exact asks_paint changes
  | reset => exact absurd rfl h

end Steps

end Canvas

end Linework
