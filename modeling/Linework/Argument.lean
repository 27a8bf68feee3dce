import Linework.Plane.Point
import Linework.Style

/-!
# Arguments

The arguments of an operation come from outside and may be of any sort. Where a number is asked
for, a flag stands for zero or one and nothing else will do; where a flag is asked for, every
argument will do. A list of numbers is read back from its arguments unchanged.
-/

set_option autoImplicit false

namespace Linework

/-- An argument; `other` is a text, a list or a record. -/
inductive Argument (α : Type) where
  | number (x : α)
  | flag (b : Bool)
  | absent
  | style (s : Style)
  | other (v : Value)

namespace Argument

variable {α : Type}

def ofNumbers (xs : List α) : List (Argument α) := xs.map number

def ofPoint (p : Point α) : Point (Argument α) := ⟨number p.x, number p.y⟩

@[simp] theorem length_ofNumbers (xs : List α) : (ofNumbers xs).length = xs.length := by
  simp [ofNumbers]

variable [Scalar α]

def real : Argument α → Except Fault α
  | number x => .ok x
  | flag b => .ok (Scalar.whole (if b then 1 else 0))
  | _ => .error .wrongType

def reals : List (Argument α) → Except Fault (List α)
  | [] => .ok []
  | a :: rest => do
    let x ← a.real
    let xs ← reals rest
    return x :: xs

def point (p : Point (Argument α)) : Except Fault (Point α) := do
  let x ← p.x.real
  let y ← p.y.real
  return ⟨x, y⟩

def isZero : Argument α → Bool
  | number x => Scalar.isZero x
  | flag b => !b
  | _ => false

def isSet : Argument α → Bool
  | number x => !Scalar.isZero x
  | flag b => b
  | absent => false
  | style _ => true
  | other v => v.isSet

@[simp] theorem reals_ofNumbers (xs : List α) : reals (ofNumbers xs) = .ok xs := by
  induction xs with
  | nil => rfl
  | cons x xs ih =>
    have h : ofNumbers (x :: xs) = number x :: ofNumbers xs := rfl
    rw [h, reals, ih]
    rfl

end Argument

end Linework
