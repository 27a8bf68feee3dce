import Linework.Argument
import Linework.Plane.Arc

/-!
# Points and arcs in one line

A point is written as a number of the plane: the second coordinate carries its sign and a `j`, and
a first coordinate of plus zero is left out together with the parentheses. The angles of an arc are
written as they were given.
-/

set_option autoImplicit false

namespace Linework

def Point.text (p : Point Float) : List Char :=
  let second := Binary64.text false p.y ++ ['j']
  if p.x.toBits = 0 then second
  else
    '(' :: Binary64.text false p.x ++
      (if second.head? = some '-' then second else '+' :: second) ++ [')']

def Argument.numberText : Argument Float → List Char
  | .number x => Binary64.text true x
  | .flag b => Value.flagText b
  | _ => []

def Arc.describe (a : Arc Float) (rotation startAngle sweep : Argument Float) : String :=
  String.ofList ("CenterArc(center=".toList ++ a.ellipse.center.text ++
    ", radius=".toList ++ a.ellipse.radii.text ++
    ", phi=".toList ++ rotation.numberText ++ ", theta1=".toList ++ startAngle.numberText ++
    ", delta=".toList ++ sweep.numberText ++ [')'])

end Linework
