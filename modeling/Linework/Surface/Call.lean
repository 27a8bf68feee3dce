import Linework.Argument
import Linework.Plane.Affine
import Linework.Plane.Arc

/-!
# Calls of a surface

A surface is asked for primitives by calls. A call names a primitive and hands over arguments of
any sort: whether they fit is for the surface to say. The calls of well-formed primitives have
functions of their own.
-/

set_option autoImplicit false

namespace Linework

/-- The primitives of a drawing context. Angles are in radians. -/
inductive Primitive where
  | beginPath
  | moveTo
  | lineTo
  | cubicTo
  | quadraticTo
  | ellipse
  | closePath
  | save
  | restore
  | fill
  | stroke
  | translate
  | scale
  | rotate
  | transform
  | setTransform
  deriving DecidableEq

namespace Primitive

def all : List Primitive :=
  [beginPath, moveTo, lineTo, cubicTo, quadraticTo, ellipse, closePath, save, restore, fill,
    stroke, translate, scale, rotate, transform, setTransform]

def name : Primitive → String
  | beginPath => "begin_path"
  | moveTo => "move_to"
  | lineTo => "line_to"
  | cubicTo => "bezier_curve_to"
  | quadraticTo => "quadratic_curve_to"
  | ellipse => "ellipse"
  | closePath => "close_path"
  | save => "save"
  | restore => "restore"
  | fill => "fill"
  | stroke => "stroke"
  | translate => "translate"
  | scale => "scale"
  | rotate => "rotate"
  | transform => "transform"
  | setTransform => "set_transform"

def ofName? (name : String) : Option Primitive := all.find? fun p => p.name == name

def arity : Primitive → Nat
  | beginPath | closePath | save | restore => 0
  | fill | stroke | rotate => 1
  | moveTo | lineTo | translate | scale => 2
  | quadraticTo => 4
  | cubicTo | transform | setTransform => 6
  | ellipse => 8

end Primitive

structure Call (α : Type) where
  primitive : Primitive
  arguments : List (Argument α)

namespace Call

variable {α : Type}

def isComplete (c : Call α) : Bool := c.arguments.length == c.primitive.arity

def beginPath : Call α := ⟨.beginPath, []⟩

def moveTo (p : Point α) : Call α := ⟨.moveTo, [.number p.x, .number p.y]⟩

def lineTo (p : Point α) : Call α := ⟨.lineTo, [.number p.x, .number p.y]⟩

def cubicTo (first second p : Point α) : Call α :=
  ⟨.cubicTo, [.number first.x, .number first.y, .number second.x, .number second.y, .number p.x,
    .number p.y]⟩

def quadraticTo (control p : Point α) : Call α :=
  ⟨.quadraticTo, [.number control.x, .number control.y, .number p.x, .number p.y]⟩

def ellipse (center radii : Point (Argument α))
    (rotation startAngle endAngle anticlockwise : Argument α) : Call α :=
  ⟨.ellipse, [center.x, center.y, radii.x, radii.y, rotation, startAngle, endAngle,
    anticlockwise]⟩

def oval (o : Oval α) : Call α :=
  ellipse (Argument.ofPoint o.ellipse.center) (Argument.ofPoint o.ellipse.radii)
    (.number o.ellipse.rotation) (.number o.startAngle) (.number o.endAngle)
    (.flag o.anticlockwise)

def closePath : Call α := ⟨.closePath, []⟩

def save : Call α := ⟨.save, []⟩

def restore : Call α := ⟨.restore, []⟩

def fill (s : Style) : Call α := ⟨.fill, [.style s]⟩

def stroke (s : Style) : Call α := ⟨.stroke, [.style s]⟩

def translate (d : Point (Argument α)) : Call α := ⟨.translate, [d.x, d.y]⟩

def scale (k : Point (Argument α)) : Call α := ⟨.scale, [k.x, k.y]⟩

def rotate (angle : Argument α) : Call α := ⟨.rotate, [angle]⟩

def transform (m : Affine (Argument α)) : Call α :=
  ⟨.transform, [m.a, m.b, m.c, m.d, m.e, m.f]⟩

def setTransform (m : Affine (Argument α)) : Call α :=
  ⟨.setTransform, [m.a, m.b, m.c, m.d, m.e, m.f]⟩

end Call

namespace Oval

variable {α : Type} [Scalar α]

/-- The oval that the arguments of a call describe. The angles come first, and an infinite start
is refused before the rotation is looked at. -/
def ofArguments (center radii : Point (Argument α))
    (rotation startAngle endAngle anticlockwise : Argument α) : Except Fault (Oval α) := do
  let c ← Argument.point center
  let r ← Argument.point radii
  let first ← startAngle.real
  let last ← endAngle.real
  let _ ← Scalar.onCircle Scalar.cos first
  let turn ← rotation.real
  return ⟨⟨c, r, turn⟩, first, last, anticlockwise.isSet⟩

end Oval

end Linework
