import Linework.Canvas.Oval

/-!
# Operations of a canvas

Everything that can be asked of a canvas, and what it does. A run goes on after an operation that
fails, with the state that this one left.
-/

set_option autoImplicit false

namespace Linework

open Outline (Command)

inductive Op (α : Type) where
  | command (c : Command) (arguments : List (Argument α))
  | path (text : String)
  | oval (r : OvalRequest α)
  | roundedCorner (p1 p2 : Point (Argument α)) (r : Argument α)
  | beginPath
  | translate (d : Point (Argument α))
  | scale (k : Point (Argument α))
  | rotate (angle : Argument α)
  | transform (m : Affine (Argument α))
  | setTransform (m : Affine (Argument α))
  | save
  | restore
  | revert
  | setUnit (unit : Value)
  | set (changes : Changes)
  | fill (changes : Changes)
  | stroke (changes : Changes)
  | paint (changes : Changes)
  | reset

namespace Canvas

variable {σ α : Type}

def apply (s : Snapshot) (c : Canvas σ α) : Canvas σ α :=
  { c with pen := { c.pen with unit := s.unit }, style := s.style }

def snapshot (c : Canvas σ α) : Snapshot := ⟨c.pen.unit, c.style⟩

def styleFor (changes : Changes) (c : Canvas σ α) : Except Fault Style :=
  if changes.isEmpty then .ok c.style else c.style.updated changes

def renewed (c : Canvas σ α) : Canvas σ α := fresh c.surface c.autoOpen c.defaultUnit

def setUnit (unit : Value) : Act (Canvas σ α) Unit := do
  let u ← Act.ofExcept (AngleUnit.ofValue unit)
  movePen fun p => { p with unit := u }

def setStyle (changes : Changes) : Act (Canvas σ α) Unit := do
  let s ← Act.ofExcept ((← get).style.updated changes)
  modify fun c => { c with style := s }

variable [Surface σ α]

/-- Performs a call that changes the coordinates or drops the path, and lifts the pen. -/
def lifting (c : Call α) : Act (Canvas σ α) Unit := do
  draw c
  movePen Pen.lift

def save : Act (Canvas σ α) Unit := do
  draw .save
  modify fun c => { c with saved := c.snapshot :: c.saved }

def restore : Act (Canvas σ α) (List Warning) := do
  match (← get).saved with
  | [] => return [.restoreIgnored]
  | s :: rest =>
    draw .restore
    modify fun c => { c.apply s with saved := rest }
    return []

def revert : Act (Canvas σ α) (List Warning) := do
  match (← get).saved with
  | [] => return [.revertIgnored]
  | s :: _ =>
    draw .restore
    draw .save
    modify fun c => c.apply s
    return []

def fill (changes : Changes) : Act (Canvas σ α) (List Warning) := do
  let s ← Act.ofExcept ((← get).styleFor changes)
  perform (.fill s)

def stroke (changes : Changes) : Act (Canvas σ α) (List Warning) := do
  let s ← Act.ofExcept ((← get).styleFor changes)
  perform (.stroke s)

def paint (changes : Changes) : Act (Canvas σ α) (List Warning) := do
  let s ← Act.ofExcept ((← get).styleFor changes)
  let first ← perform (.fill s)
  let second ← perform (.stroke s)
  return first ++ second

def reset : Act (Canvas σ α) Unit := do
  onSurface Surface.clear
  modify renewed

def quietly (m : Act (Canvas σ α) Unit) : Act (Canvas σ α) (List Warning) := do
  m
  return []

variable [Scalar α]

def rotate (angle : Argument α) : Act (Canvas σ α) Unit := do
  let turn ← Act.ofExcept ((← get).pen.unit.resolve angle)
  lifting (.rotate turn)

def act : Op α → Act (Canvas σ α) (List Warning)
  | .command c arguments => quietly (command c arguments)
  | .path text => quietly (path text)
  | .oval r => quietly (oval r)
  | .roundedCorner p1 p2 radius => quietly (roundedCorner p1 p2 radius)
  | .beginPath => quietly (lifting .beginPath)
  | .translate d => quietly (lifting (.translate d))
  | .scale k => quietly (lifting (.scale k))
  | .rotate angle => quietly (rotate angle)
  | .transform m => quietly (lifting (.transform m))
  | .setTransform m => quietly (lifting (.setTransform m))
  | .save => quietly save
  | .restore => restore
  | .revert => revert
  | .setUnit unit => quietly (setUnit unit)
  | .set changes => quietly (setStyle changes)
  | .fill changes => fill changes
  | .stroke changes => stroke changes
  | .paint changes => paint changes
  | .reset => quietly reset

/-- What an operation answers: its warnings, or the fault that ended it. -/
abbrev Outcome := Except Fault (List Warning)

def step (op : Op α) (c : Canvas σ α) : Outcome × Canvas σ α := (act op).run c

def run : List (Op α) → Canvas σ α → List Outcome × Canvas σ α
  | [], c => ([], c)
  | op :: rest, c =>
    let (outcome, c) := step op c
    let (outcomes, c) := run rest c
    (outcome :: outcomes, c)

end Canvas

end Linework
