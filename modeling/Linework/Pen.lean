import Linework.Plane.PointText

/-!
# The pen of a canvas

The pen knows the current point, the start of the subpath, the last control point of a curve and
the unit in which angles are given. Moving the pen forgets the control points.
-/

set_option autoImplicit false

namespace Linework

structure Pen (α : Type) where
  current : Option (Point α)
  start : Option (Point α)
  cubic : Option (Point α)
  quadratic : Option (Point α)
  unit : AngleUnit

namespace Pen

variable {α : Type}

def fresh (unit : AngleUnit) : Pen α := ⟨none, none, none, none, unit⟩

/-- Forgets the path. A change of coordinates does so, too: it leaves the points in the wrong
space. -/
def lift (p : Pen α) : Pen α := fresh p.unit

def isOpen (p : Pen α) : Bool := p.current.isSome

def put (p : Pen α) (z : Option (Point α)) : Pen α :=
  { p with current := z, cubic := none, quadratic := none }

def moveTo (p : Pen α) (z : Point α) : Pen α := p.put (some z)

def putStart (p : Pen α) (z : Option (Point α)) : Pen α := { p.put z with start := z }

def openAt (p : Pen α) (z : Point α) : Pen α := p.putStart (some z)

def ensureOpen (p : Pen α) (z : Option (Point α)) : Pen α := if p.isOpen then p else p.putStart z

def requireCurrent (p : Pen α) : Except Fault (Point α) :=
  match p.current with
  | some z => .ok z
  | none => .error .noCurrentPoint

/-- Closing a subpath leads back to its start; without one there is nothing left to go on from. -/
def close (p : Pen α) : Pen α :=
  match p.start with
  | some z => p.moveTo z
  | none => p.lift

def control (p : Pen α) : Curve → Option (Point α)
  | .cubic => p.cubic
  | .quadratic => p.quadratic

def curveTo (p : Pen α) (curve : Curve) (control z : Point α) : Pen α :=
  match curve with
  | .cubic => { p.moveTo z with cubic := some control }
  | .quadratic => { p.moveTo z with quadratic := some control }

theorem isOpen_iff {p : Pen α} : p.isOpen = true ↔ ∃ z, p.current = some z :=
  Option.isSome_iff_exists

theorem current_of_requireCurrent {p : Pen α} {z : Point α} (h : p.requireCurrent = .ok z) :
    p.current = some z := by
  rw [requireCurrent] at h
  split at h <;> cases h
  assumption

@[simp] theorem lift_current (p : Pen α) : p.lift.current = none := rfl

@[simp] theorem lift_start (p : Pen α) : p.lift.start = none := rfl

@[simp] theorem openAt_current (p : Pen α) (z : Point α) : (p.openAt z).current = some z := rfl

@[simp] theorem openAt_start (p : Pen α) (z : Point α) : (p.openAt z).start = some z := rfl

@[simp] theorem moveTo_current (p : Pen α) (z : Point α) : (p.moveTo z).current = some z := rfl

@[simp] theorem moveTo_start (p : Pen α) (z : Point α) : (p.moveTo z).start = p.start := rfl

@[simp] theorem curveTo_current (p : Pen α) (curve : Curve) (k z : Point α) :
    (p.curveTo curve k z).current = some z := by
  cases curve <;> rfl

@[simp] theorem curveTo_start (p : Pen α) (curve : Curve) (k z : Point α) :
    (p.curveTo curve k z).start = p.start := by
  cases curve <;> rfl

theorem close_of_start {p : Pen α} {z : Point α} (h : p.start = some z) :
    p.close = p.moveTo z := by
  rw [close, h]

theorem close_of_none {p : Pen α} (h : p.start = none) : p.close = p.lift := by
  rw [close, h]

def samePoint [Scalar α] : Option (Point α) → Option (Point α) → Bool
  | some p, some q => p.beq q
  | none, none => true
  | _, _ => false

def beq [Scalar α] (p q : Pen α) : Bool :=
  samePoint p.current q.current && samePoint p.start q.start && samePoint p.cubic q.cubic &&
    samePoint p.quadratic q.quadratic && p.unit == q.unit

end Pen

namespace Pen

def pointText : Option (Point Float) → List Char
  | some p => p.text
  | none => "None".toList

def describe (p : Pen Float) : String :=
  String.ofList ("PathState(current=".toList ++ pointText p.current ++
    ", subpath_start=".toList ++ pointText p.start ++
    ", last_cubic_control=".toList ++ pointText p.cubic ++
    ", last_quadratic_control=".toList ++ pointText p.quadratic ++
    ", angle_unit=".toList ++ Text.quoted p.unit.name.toList ++ [')'])

end Pen

end Linework
