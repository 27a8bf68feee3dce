/-!
# Path commands

A path is described by commands of ten kinds. Each has a letter, upper case when its coordinates
are absolute and lower case when they are relative to the current point.
-/

set_option autoImplicit false

namespace Linework.Outline

inductive Verb where
  | move
  | line
  | horizontal
  | vertical
  | cubic
  | smoothCubic
  | quadratic
  | smoothQuadratic
  | arc
  | close
  deriving DecidableEq

namespace Verb

def all : List Verb :=
  [move, line, horizontal, vertical, cubic, smoothCubic, quadratic, smoothQuadratic, arc, close]

def letter : Verb → Char
  | move => 'M'
  | line => 'L'
  | horizontal => 'H'
  | vertical => 'V'
  | cubic => 'C'
  | smoothCubic => 'S'
  | quadratic => 'Q'
  | smoothQuadratic => 'T'
  | arc => 'A'
  | close => 'Z'

def groupSize : Verb → Nat
  | move => 2
  | line => 2
  | horizontal => 1
  | vertical => 1
  | cubic => 6
  | smoothCubic => 4
  | quadratic => 4
  | smoothQuadratic => 2
  | arc => 7
  | close => 0

def name : Verb → String
  | move => "MOVETO"
  | line => "LINETO"
  | horizontal => "HLINETO"
  | vertical => "VLINETO"
  | cubic => "CURVETO"
  | smoothCubic => "SMOOTH_CURVETO"
  | quadratic => "QUADTO"
  | smoothQuadratic => "SMOOTH_QUADTO"
  | arc => "ARCTO"
  | close => "CLOSEPATH"

def method : Verb → String
  | move => "move_to"
  | line => "line_to"
  | horizontal => "hline_to"
  | vertical => "vline_to"
  | cubic => "bezier_curve_to"
  | smoothCubic => "smooth_curve_to"
  | quadratic => "quadratic_curve_to"
  | smoothQuadratic => "smooth_quadratic_curve_to"
  | arc => "elliptical_arc_to"
  | close => "close_path"

end Verb

structure Command where
  verb : Verb
  relative : Bool
  deriving DecidableEq

namespace Command

def all : List Command :=
  Verb.all.flatMap fun v => [⟨v, false⟩, ⟨v, true⟩]

def letter (c : Command) : Char :=
  if c.relative then c.verb.letter.toLower else c.verb.letter

def groupSize (c : Command) : Nat := c.verb.groupSize

def name (c : Command) : String :=
  if c.relative then "R" ++ c.verb.name else c.verb.name

/-- A relative command is offered under the name of the absolute one with an `r` in front, save
that closing a path has one name only. -/
def method (c : Command) : String :=
  if c.relative ∧ c.verb ≠ .close then "r" ++ c.verb.method else c.verb.method

def ofLetter? (letter : Char) : Option Command :=
  all.find? fun c => c.letter == letter

def ofName? (name : String) : Option Command :=
  all.find? fun c => c.method == name || name == String.singleton c.letter

end Command

end Linework.Outline
