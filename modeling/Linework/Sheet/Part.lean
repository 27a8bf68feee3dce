import Linework.Outline.Coordinate
import Linework.Outline.Command
import Linework.Plane.Point

/-!
# Parts of a path on a sheet

A path on a sheet is a list of parts with absolute device coordinates. Its text puts the letter of
each part before its points, and blanks between.
-/

set_option autoImplicit false

namespace Linework

inductive Part (α : Type) where
  | move (p : Point α)
  | line (p : Point α)
  | cubic (first second p : Point α)
  | quadratic (control p : Point α)
  | arc (radii : Point α) (rotation : α) (large clockwise : Bool) (p : Point α)
  | close

namespace Part

variable {α : Type}

def verb : Part α → Outline.Verb
  | move _ => .move
  | line _ => .line
  | cubic .. => .cubic
  | quadratic .. => .quadratic
  | arc .. => .arc
  | close => .close

/-- The numbers of a part that have to be finite, in the order in which they are written. -/
def coordinates : Part α → List α
  | move p => [p.x, p.y]
  | line p => [p.x, p.y]
  | cubic a b p => [a.x, a.y, b.x, b.y, p.x, p.y]
  | quadratic a p => [a.x, a.y, p.x, p.y]
  | arc radii rotation _ _ p => [radii.x, radii.y, rotation, p.x, p.y]
  | close => []

def nonFinite? [Scalar α] (part : Part α) : Option NonFinite :=
  part.coordinates.findSome? Scalar.nonFinite?

def spaced : List (List Char) → List Char
  | [] => []
  | [s] => s
  | s :: rest => s ++ ' ' :: spaced rest

def pointText (p : Point Float) : List Char :=
  Outline.Coordinate.text p.x ++ ',' :: Outline.Coordinate.text p.y

def flagText (b : Bool) : List Char := [if b then '1' else '0']

def arguments : Part Float → List (List Char)
  | move p => [pointText p]
  | line p => [pointText p]
  | cubic a b p => [pointText a, pointText b, pointText p]
  | quadratic a p => [pointText a, pointText p]
  | arc radii rotation large clockwise p =>
    [pointText radii, Outline.Coordinate.text rotation,
      flagText large ++ ',' :: flagText clockwise, pointText p]
  | close => []

def text (part : Part Float) : List Char := spaced ([part.verb.letter] :: part.arguments)

def pathText (parts : List (Part Float)) : List Char := spaced (parts.map text)

end Part

end Linework
