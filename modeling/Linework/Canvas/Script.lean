import Linework.Canvas.Op

/-!
# Operations by name

A script names the operations of a canvas and gives their arguments. Commands of a path go by the
names of their methods or by their letters and take any count of arguments; the other operations
take a fixed one, of which some may be left out at the end.
-/

set_option autoImplicit false

namespace Linework.Op

open Outline (Command)

variable {α : Type} [Scalar α]

def ovalOf? (center radii : Point (Argument α)) (rotation : Argument α) :
    List (Argument α) → Option (Op α)
  | [] => some (oval ⟨center, radii, rotation, .absent, .absent, .flag false⟩)
  | [first] => some (oval ⟨center, radii, rotation, first, .absent, .flag false⟩)
  | [first, last] => some (oval ⟨center, radii, rotation, first, last, .flag false⟩)
  | [first, last, back] => some (oval ⟨center, radii, rotation, first, last, back⟩)
  | _ => none

def ofCall? (name : String) (arguments : List (Argument α)) : Option (Op α) :=
  match Command.ofName? name with
  | some c => some (command c arguments)
  | none =>
    match name, arguments with
    | "arc", x :: y :: r :: rest => ovalOf? ⟨x, y⟩ ⟨r, r⟩ (.number (Scalar.whole 0)) rest
    | "ellipse", [x, y, rx, ry] => ovalOf? ⟨x, y⟩ ⟨rx, ry⟩ (.number (Scalar.whole 0)) []
    | "ellipse", x :: y :: rx :: ry :: rotation :: rest => ovalOf? ⟨x, y⟩ ⟨rx, ry⟩ rotation rest
    | "arc_to", [x1, y1, x2, y2, r] => some (roundedCorner ⟨x1, y1⟩ ⟨x2, y2⟩ r)
    | "begin_path", [] => some beginPath
    | "end_path", [] => some beginPath
    | "translate", [x, y] => some (translate ⟨x, y⟩)
    | "scale", [k] => some (scale ⟨k, k⟩)
    | "scale", [k, .absent] => some (scale ⟨k, k⟩)
    | "scale", [x, y] => some (scale ⟨x, y⟩)
    | "rotate", [angle] => some (rotate angle)
    | "transform", [a, b, c, d, e, f] => some (transform ⟨a, b, c, d, e, f⟩)
    | "set_transform", [a, b, c, d, e, f] => some (setTransform ⟨a, b, c, d, e, f⟩)
    | "save", [] => some save
    | "restore", [] => some restore
    | "revert", [] => some revert
    | "reset", [] => some reset
    | _, _ => none

/-- The names that belong to a canvas besides those of the commands: its other operations, and
what it holds, which cannot be called. -/
def otherNames : List String :=
  ["arc", "ellipse", "arc_to", "begin_path", "end_path", "translate", "scale", "rotate",
    "transform", "set_transform", "save", "restore", "revert", "reset", "set", "fill", "stroke",
    "paint", "svgpath", "angle_unit", "state", "current_point", "subpath_start", "surface",
    "style", "auto_open"]

def read (name : String) (arguments : List (Argument α)) : Except Fault (Op α) :=
  match ofCall? name arguments with
  | some op => .ok op
  | none =>
    if otherNames.contains name then .error .wrongType else .error (.unknownOperation name)

def ofChanges? (name : String) (changes : Changes) : Option (Op α) :=
  match name with
  | "set" => some (set changes)
  | "fill" => some (fill changes)
  | "stroke" => some (stroke changes)
  | "paint" => some (paint changes)
  | _ => none

end Linework.Op
