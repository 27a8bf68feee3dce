import Linework.Proofs.Canvas.Mask
import Linework.Proofs.Canvas.Passages

/-!
# Radians throughout

A unit of angles is a convenience: a run that changes units, saves them and brings them back comes
to the same as a run in radians alone, for which every given angle has been turned into radians
under the unit in force where it was given. What is left out of a request stays left out, and the
commands of a path know no unit at all.
-/

set_option autoImplicit false

namespace Linework

def Mask.units (u : AngleUnit) : Mask := ⟨id, fun _ => u, id, id_default⟩

def Op.setsUnit {α : Type} : Op α → Bool
  | .setUnit _ => true
  | _ => false

section Requests

variable {α : Type} [Scalar α]

def AngleUnit.resolveGiven (unit : AngleUnit) : Argument α → Except Fault (Argument α)
  | .absent => .ok .absent
  | angle => unit.resolve angle

def AngleUnit.resolveOr (unit : AngleUnit) (x : α) : Argument α → Except Fault (Argument α)
  | .absent => .ok (.number x)
  | angle => unit.resolve angle

/-- The request with the angles that are given in radians. -/
def OvalRequest.inRadians (r : OvalRequest α) (unit : AngleUnit) :
    Except Fault (OvalRequest α) := do
  let startAngle ← unit.resolveGiven r.startAngle
  let endAngle ← unit.resolveGiven r.endAngle
  let rotation ← unit.resolve r.rotation
  return { r with rotation, startAngle, endAngle }

def Op.inRadians (unit : AngleUnit) : Op α → Except Fault (Op α)
  | .oval r => (r.inRadians unit).map .oval
  | .rotate angle => (unit.resolve angle).map .rotate
  | op => .ok op

theorem Op.inRadians_of_not_usesUnit {op : Op α} (h : op.usesUnit = false) (unit : AngleUnit) :
    op.inRadians unit = .ok op := by
  cases op with
  | oval _ | rotate _ | setUnit _ => cases h
  | _ => rfl

theorem OvalRequest.resolve_eq (r : OvalRequest α) (unit : AngleUnit) :
    r.resolve unit = (do
      let startAngle ← unit.resolveOr (Scalar.whole 0) r.startAngle
      let endAngle ← unit.resolveOr Scalar.fullTurn r.endAngle
      let center ← Argument.point r.center
      let radii ← Argument.point r.radii
      let rotation ← unit.resolve r.rotation
      return ⟨Argument.ofPoint center, Argument.ofPoint radii, rotation, startAngle, endAngle,
        r.anticlockwise⟩) := by
  obtain ⟨center, radii, rotation, startAngle, endAngle, anticlockwise⟩ := r
  cases startAngle <;> cases endAngle <;> rfl

theorem Argument.wrongType_real (a : Argument α) : OnlyFails (· = .wrongType) a.real := by
  cases a with
  | number x | flag b => exact onlyFails_ok _
  | absent | style s | other v => exact onlyFails_error rfl

theorem Argument.wrongType_point (p : Point (Argument α)) :
    OnlyFails (· = .wrongType) (point p) :=
  onlyFails_bind (wrongType_real p.x) fun _ =>
    onlyFails_bind (wrongType_real p.y) fun _ => onlyFails_ok _

namespace AngleUnit

variable {unit : AngleUnit} {a b : Argument α}

theorem wrongType_resolve (unit : AngleUnit) (a : Argument α) :
    OnlyFails (· = .wrongType) (unit.resolve a) := by
  cases unit with
  | radians => exact onlyFails_ok a
  | degrees =>
    intro e he
    rcases hr : a.real with f | x
    · rw [resolve, hr] at he
      cases he
      exact Argument.wrongType_real a _ hr
    · rw [resolve, hr] at he
      cases he

theorem wrongType_resolveGiven (unit : AngleUnit) (a : Argument α) :
    OnlyFails (· = .wrongType) (unit.resolveGiven a) := by
  cases a with
  | absent => exact onlyFails_ok _
  | number _ | flag _ | style _ | other _ => exact wrongType_resolve unit _

theorem wrongType_resolveOr (unit : AngleUnit) (x : α) (a : Argument α) :
    OnlyFails (· = .wrongType) (unit.resolveOr x a) := by
  cases a with
  | absent => exact onlyFails_ok _
  | number _ | flag _ | style _ | other _ => exact wrongType_resolve unit _

theorem resolveOr_of_resolveGiven (h : unit.resolveGiven a = .ok b) (x : α) :
    radians.resolveOr x b = unit.resolveOr x a := by
  cases unit with
  | radians => cases a <;> cases h <;> rfl
  | degrees => cases a <;> cases h <;> rfl

theorem exists_resolveGiven {x : α} (h : unit.resolveOr x a = .ok b) :
    ∃ d, unit.resolveGiven a = .ok d := by
  cases a with
  | absent => exact ⟨_, rfl⟩
  | number _ | flag _ | style _ | other _ => exact ⟨b, h⟩

end AngleUnit

namespace OvalRequest

variable {r s : OvalRequest α} {unit : AngleUnit}

theorem resolve_inRadians (h : r.inRadians unit = .ok s) : s.resolve .radians = r.resolve unit := by
  rw [inRadians] at h
  obtain ⟨startAngle, hstart, h⟩ := exists_of_bind_ok h
  obtain ⟨endAngle, hend, h⟩ := exists_of_bind_ok h
  obtain ⟨rotation, hrotation, h⟩ := exists_of_bind_ok h
  cases h
  rw [resolve_eq, resolve_eq, hrotation]
  dsimp only
  rw [AngleUnit.resolveOr_of_resolveGiven hstart, AngleUnit.resolveOr_of_resolveGiven hend]
  rfl

theorem wrongType_inRadians (r : OvalRequest α) (unit : AngleUnit) :
    OnlyFails (· = .wrongType) (r.inRadians unit) :=
  onlyFails_bind (AngleUnit.wrongType_resolveGiven unit _) fun _ =>
    onlyFails_bind (AngleUnit.wrongType_resolveGiven unit _) fun _ =>
      onlyFails_bind (AngleUnit.wrongType_resolve unit _) fun _ => onlyFails_ok _

theorem wrongType_resolve (r : OvalRequest α) (unit : AngleUnit) :
    OnlyFails (· = .wrongType) (r.resolve unit) := by
  rw [resolve_eq]
  refine onlyFails_bind (AngleUnit.wrongType_resolveOr unit _ _) fun _ => ?_
  refine onlyFails_bind (AngleUnit.wrongType_resolveOr unit _ _) fun _ => ?_
  refine onlyFails_bind (Argument.wrongType_point _) fun _ => ?_
  refine onlyFails_bind (Argument.wrongType_point _) fun _ => ?_
  exact onlyFails_bind (AngleUnit.wrongType_resolve unit _) fun _ => onlyFails_ok _

/-- A request whose angles are no angles is refused with the same fault, whichever of its arguments
is looked at first. -/
theorem resolve_of_inRadians_error {e : Fault} (h : r.inRadians unit = .error e) :
    r.resolve unit = .error e := by
  rcases hr : r.resolve unit with f | q
  · rw [wrongType_inRadians r unit e h, wrongType_resolve r unit f hr]
  · -- an answer would mean that all three angles could be read
    rw [resolve_eq] at hr
    obtain ⟨startAngle, hstart, hr⟩ := exists_of_bind_ok hr
    obtain ⟨endAngle, hend, hr⟩ := exists_of_bind_ok hr
    obtain ⟨_, -, hr⟩ := exists_of_bind_ok hr
    obtain ⟨_, -, hr⟩ := exists_of_bind_ok hr
    obtain ⟨rotation, hrotation, -⟩ := exists_of_bind_ok hr
    obtain ⟨_, hstart⟩ := AngleUnit.exists_resolveGiven hstart
    obtain ⟨_, hend⟩ := AngleUnit.exists_resolveGiven hend
    rw [inRadians, hstart, ok_bind, hend, ok_bind, hrotation, ok_bind] at h
    cases h

end OvalRequest

end Requests

def Passage.inRadians {σ α : Type} [Scalar α] (p : Passage σ α) : Except Fault (Op α) :=
  p.op.inRadians p.before.pen.unit

namespace Canvas

variable {σ α : Type}

/-- The same canvas in one unit throughout. -/
def inUnits (u : AngleUnit) (c : Canvas σ α) : Canvas σ α :=
  { c with defaultUnit := u, pen := { c.pen with unit := u },
           saved := c.saved.map fun n => { n with unit := u } }

variable [Scalar α] [Surface σ α]

/-- Carries out an operation whose arguments have to be worked out first. -/
def attempt (op : Except Fault (Op α)) (c : Canvas σ α) : Outcome × Canvas σ α :=
  match op with
  | .ok op => step op c
  | .error e => (.error e, c)

def attempts : List (Except Fault (Op α)) → Canvas σ α → List Outcome × Canvas σ α
  | [], c => ([], c)
  | op :: rest, c =>
    let (outcome, c) := attempt op c
    let (outcomes, c) := attempts rest c
    (outcome :: outcomes, c)

omit [Surface σ α] [Scalar α] in
theorem run_quietly_mapped {m n : Act (Canvas σ α) Unit} {f : Canvas σ α → Canvas σ α}
    {c d : Canvas σ α} (h : n.run d = ((m.run c).1, f (m.run c).2)) :
    (quietly n).run d = (((quietly m).run c).1, f ((quietly m).run c).2) := by
  rw [run_quietly, run_quietly, h]
  rcases m.run c with ⟨_ | _, t⟩ <;> rfl

theorem run_oval (r : OvalRequest α) (c : Canvas σ α) :
    (oval r).run c =
      (Act.ofExcept (r.resolve c.pen.unit) >>= drawOval c.pen.isOpen).run c := by
  rw [oval_eq, Act.run_bind_ok (Act.run_get c)]

theorem run_rotate (angle : Argument α) (c : Canvas σ α) :
    (rotate angle).run c =
      (Act.ofExcept (c.pen.unit.resolve angle) >>= fun turn => lifting (.rotate turn)).run c := by
  rw [rotate, Act.run_bind_ok (Act.run_get c)]

theorem attempt_oval (r : OvalRequest α) (c : Canvas σ α) :
    attempt (Op.inRadians c.pen.unit (.oval r)) (c.inUnits .radians) =
      ((step (.oval r) c).1, (step (.oval r) c).2.inUnits .radians) := by
  rcases h : r.inRadians c.pen.unit with e | s
  · have hstep : step (.oval r) c = (.error e, c) := by
      change (quietly (oval r)).run c = _
      rw [run_quietly, run_oval, OvalRequest.resolve_of_inRadians_error h]
      rfl
    rw [Op.inRadians, h, hstep]
    rfl
  · have hoval : (oval s).run (c.inUnits .radians) =
        (((oval r).run c).1, ((oval r).run c).2.inUnits .radians) := by
      rw [run_oval, run_oval]
      change (Act.ofExcept (s.resolve .radians) >>= drawOval c.pen.isOpen).run _ = _
      rw [OvalRequest.resolve_inRadians h]
      exact Act.commutes_bind (f := masked (.units .radians)) (Act.commutes_ofExcept _)
        (fun q => commutes_drawOval _ q) c
    rw [Op.inRadians, h]
    exact run_quietly_mapped hoval

theorem attempt_rotate (angle : Argument α) (c : Canvas σ α) :
    attempt (Op.inRadians c.pen.unit (.rotate angle)) (c.inUnits .radians) =
      ((step (.rotate angle) c).1, (step (.rotate angle) c).2.inUnits .radians) := by
  rcases h : c.pen.unit.resolve angle with e | turn
  · have hstep : step (.rotate angle) c = (.error e, c) := by
      change (quietly (rotate angle)).run c = _
      rw [run_quietly, run_rotate, h]
      rfl
    rw [Op.inRadians, h, hstep]
    rfl
  · have hrotate : (rotate turn).run (c.inUnits .radians) =
        (((rotate angle).run c).1, ((rotate angle).run c).2.inUnits .radians) := by
      rw [run_rotate, run_rotate, h]
      exact Act.commutes_bind (f := masked (.units .radians)) (Act.commutes_ofExcept (.ok turn))
        (fun t => commutes_lifting _) c
    rw [Op.inRadians, h]
    exact run_quietly_mapped hrotate

theorem commutes_inUnits {op : Op α} (h : op.usesUnit = false) (u : AngleUnit) :
    Act.Commutes (inUnits u) (act op : Act (Canvas σ α) (List Warning)) :=
  commutes_act_of_autoOpen (g := .units u) (fun hu => absurd (hu.symm.trans h) (by simp))
    (fun _ _ => rfl) fun _ => rfl

/-- An operation does on a canvas in radians, given its angles in radians, what it does on the
canvas with its units. -/
theorem attempt_inRadians {op : Op α} (h : op.setsUnit = false) (c : Canvas σ α) :
    attempt (op.inRadians c.pen.unit) (c.inUnits .radians) =
      ((step op c).1, (step op c).2.inUnits .radians) := by
  cases hu : op.usesUnit with
  | false =>
    rw [Op.inRadians_of_not_usesUnit hu]
    exact commutes_inUnits hu .radians c
  | true =>
    cases op with
    | oval r => exact attempt_oval r c
    | rotate angle => exact attempt_rotate angle c
    | setUnit _ => cases h
    | _ => cases hu

theorem inUnits_setUnit (u : AngleUnit) {op : Op α} (h : op.setsUnit) (c : Canvas σ α) :
    (step op c).2.inUnits u = c.inUnits u := by
  cases op with
  | setUnit unit => exact leaves_quietly (leaves_setUnit (fun _ _ => rfl) unit) c
  | _ => cases h

theorem attempts_inRadians (ops : List (Op α)) (c : Canvas σ α) :
    let kept := (passages ops c).filter fun p => !p.op.setsUnit
    attempts (kept.map Passage.inRadians) (c.inUnits .radians) =
      (kept.map Passage.outcome, (run ops c).2.inUnits .radians) := by
  induction ops generalizing c with
  | nil => rfl
  | cons op rest ih =>
    have hrest := ih (step op c).2
    cases hop : op.setsUnit with
    | true =>
      rw [inUnits_setUnit _ hop] at hrest
      rw [passages, List.filter_cons_of_neg (by simp [hop]), run_cons]
      exact hrest
    | false =>
      have hfirst : attempt (Passage.inRadians ⟨op, c, (step op c).1, (step op c).2⟩)
          (c.inUnits .radians) = ((step op c).1, (step op c).2.inUnits .radians) :=
        attempt_inRadians hop c
      rw [passages, List.filter_cons_of_pos (by simp [hop]), run_cons]
      simp only [List.map_cons, attempts, hfirst]
      dsimp only at hrest
      rw [hrest]

/-- An operation to which units make no difference. -/
def UnitFree (σ : Type) [Surface σ α] (op : Op α) : Prop :=
  ∀ (u : AngleUnit) (c : Canvas σ α),
    step op (c.inUnits u) = ((step op c).1, (step op c).2.inUnits u)

theorem unitFree_oval {r : OvalRequest α} (h : ∀ u v : AngleUnit, r.resolve u = r.resolve v) :
    UnitFree σ (.oval r) := by
  intro u c
  have hoval : (oval r).run (c.inUnits u) =
      (((oval r).run c).1, ((oval r).run c).2.inUnits u) := by
    rw [run_oval, run_oval, h _ c.pen.unit]
    exact Act.commutes_bind (f := masked (.units u)) (Act.commutes_ofExcept _)
      (fun q => commutes_drawOval _ q) c
  exact run_quietly_mapped hoval

end Canvas

theorem AngleUnit.resolve_zero (unit : AngleUnit) :
    unit.resolve (.number (Scalar.whole 0) : Argument Float) = .ok (.number (Scalar.whole 0)) := by
  cases unit with
  | radians => rfl
  | degrees => rfl

theorem OvalRequest.resolve_without_angles (center radii : Point (Argument Float))
    (anticlockwise : Argument Float) (u v : AngleUnit) :
    (⟨center, radii, .number (Scalar.whole 0), .absent, .absent, anticlockwise⟩ :
        OvalRequest Float).resolve u =
      (⟨center, radii, .number (Scalar.whole 0), .absent, .absent, anticlockwise⟩ :
        OvalRequest Float).resolve v := by
  rw [resolve_eq, resolve_eq]
  dsimp only
  rw [AngleUnit.resolve_zero u, AngleUnit.resolve_zero v]
  rfl

namespace Canvas

/-- A run that changes units is a run in radians throughout, with every given angle turned into
radians under the unit in force and nothing left of the changes of units. The commands of a path,
arcs among them, and ovals for which no angles are given do not depend on units at all. -/
theorem radians_run {σ : Type} [Surface σ Float] (ops : List (Op Float)) (s : σ) (autoOpen : Bool)
    (unit : AngleUnit) :
    let start : Canvas σ Float := fresh s autoOpen unit
    let kept := (passages ops start).filter fun p => !p.op.setsUnit
    attempts (kept.map Passage.inRadians) (fresh s autoOpen .radians) =
        (kept.map Passage.outcome, (run ops start).2.inUnits .radians) ∧
      (∀ k as, UnitFree σ (.command k as)) ∧ (∀ text, UnitFree σ (.path text)) ∧
      ∀ center radii back, UnitFree σ
        (.oval ⟨center, radii, .number (Scalar.whole 0), .absent, .absent, back⟩) := by
  refine ⟨attempts_inRadians ops _, fun k as u c => ?_, fun text u c => ?_, ?_⟩
  · have hcommand : (Op.command k as : Op Float).usesUnit = false := rfl
    exact commutes_inUnits hcommand u c
  · have hpath : (Op.path text : Op Float).usesUnit = false := rfl
    exact commutes_inUnits hpath u c
  · exact fun center radii back => unitFree_oval
      (OvalRequest.resolve_without_angles center radii back)

end Canvas

end Linework
