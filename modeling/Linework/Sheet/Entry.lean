import Linework.Number.Reading
import Linework.Sheet.Extent
import Linework.Surface.Call

/-!
# Coordinates and entries on a sheet

A sheet reads the two coordinates of a point as numbers. The entries of a transform are read
together: nothing counts as no number, and a text as the number that it names. Lists stand neither
for coordinates nor for entries.
-/

set_option autoImplicit false

namespace Linework.Entry

variable {α : Type}

def isText : Argument α → Bool
  | .other (.text _) => true
  | _ => false

def isLoose : Argument α → Bool
  | .absent => true
  | .other (.record _) => true
  | _ => false

def areTexts (given : List (Argument α)) : Bool := given.any isText && !given.any isLoose

/-- Refuses lists of any kind among the values of a table with the given rows. -/
def checkExtent (flat : List Nat) (e : Extent) : Except Fault Unit :=
  if e.even = false then .error (.uneven e.lengths)
  else if e.lengths = flat then .ok ()
  else .error (.tooDeep e.lengths flat)

def unpadded (s : List Char) : List Char := (s.reverse.dropWhile (· == '\x00')).reverse

/-- A text in a message; one among values that are all taken as texts shows that it is one of
them. -/
def shown (amongTexts : Bool) (s : List Char) : String :=
  let quoted := Text.quoted s
  String.ofList (if amongTexts then "np.str_(".toList ++ quoted ++ [')'] else quoted)

variable [Scalar α]

def shift (x y : Argument α) : Affine (Argument α) :=
  ⟨.number (Scalar.whole 1), .number (Scalar.whole 0), .number (Scalar.whole 0),
    .number (Scalar.whole 1), x, y⟩

def scaling (x y : Argument α) : Affine (Argument α) :=
  ⟨x, .number (Scalar.whole 0), .number (Scalar.whole 0), y, .number (Scalar.whole 0),
    .number (Scalar.whole 0)⟩

def position (x y : Argument α) : Except Fault (Point α) := do
  checkExtent [3] (Extent.around [x.extent, y.extent, Extent.single])
  if areTexts [x, y] then throw .textCoordinate
  Argument.point ⟨x, y⟩

def entry (amongTexts : Bool) : Argument α → Except Fault α
  | .number x => .ok x
  | .flag b =>
    if amongTexts then .error (.notANumber (shown true (Value.flagText b)))
    else (Argument.flag b : Argument α).real
  | .absent => .ok Scalar.notANumber
  | .other (.text s) =>
    let given := if amongTexts then unpadded s.toList else s.toList
    match Reading.number? given with
    | some x => .ok x
    | none => .error (.notANumber (shown amongTexts given))
  | _ => .error .wrongType

def transform (m : Affine (Argument α)) : Except Fault (Affine α) := do
  checkExtent [2, 3] (Extent.around
    [Extent.around [m.a.extent, m.c.extent, m.e.extent],
      Extent.around [m.b.extent, m.d.extent, m.f.extent]])
  let amongTexts := areTexts [m.a, m.c, m.e, m.b, m.d, m.f]
  let a ← entry amongTexts m.a
  let c ← entry amongTexts m.c
  let e ← entry amongTexts m.e
  let b ← entry amongTexts m.b
  let d ← entry amongTexts m.d
  let f ← entry amongTexts m.f
  return ⟨a, b, c, d, e, f⟩

end Linework.Entry
