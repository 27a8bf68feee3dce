import Linework.Fault
import Linework.Number.Scalar
import Linework.Value

/-!
# Coordinates in the text of a path

A coordinate is written rounded to a number of decimal places, without a point if it is whole.
Only finite numbers can be written.
-/

set_option autoImplicit false

namespace Linework

def Scalar.nonFinite? {α : Type} [Scalar α] (x : α) : Option NonFinite :=
  if isFinite x then none
  else if isNaN x then some .nan
  else if blt x (whole 0) then some .negative
  else some .positive

namespace Outline.Coordinate

def exactText (x : Float) : List Char :=
  match Binary64.whole? x with
  | some n => Value.intText n
  | none => Binary64.text true x

def places : Nat := 10

def text (x : Float) : List Char := exactText (Binary64.roundPlaces x places)

def placesAsked (v : Value) : Except Fault Int :=
  match v with
  | .none => .ok 0
  | v => (v.int?.map .ok).getD (.error .wrongType)

/-- Writes a finite double with the places that are asked for. Rounding off digits before the
point may overflow. -/
def write (x : Float) (asked : Value) : Except Fault (List Char) :=
  match Scalar.nonFinite? x with
  | some k => .error (.notWritable k)
  | none => do
    let y := Binary64.roundPlaces x (← placesAsked asked)
    if Binary64.isFinite y then return exactText y else throw .overflow

end Outline.Coordinate

end Linework
