import Linework.Plane.Axes
import Linework.Sheet.Destination
import Linework.Sheet.Entry
import Linework.Sheet.Length
import Linework.Sheet.Part
import Linework.Style.Paint
import Linework.Surface.Basic

/-!
# Sheets

A sheet is a surface that collects the parts of the current path in device coordinates and adds
a painted path to its document for every fill and stroke. The transform in force when a primitive
is performed is the one that is applied to it.
-/

set_option autoImplicit false

namespace Linework

open Scalar

inductive Ink where
  | fill (s : Style)
  | stroke (s : Style)

namespace Ink

def paint : Ink → Value
  | fill s => s.fill
  | stroke s => s.stroke

def isValid (ink : Ink) : Bool := Paint.isValid ink.paint.toText.toList

end Ink

structure Painted (α : Type) where
  parts : List (Part α)
  ink : Ink

structure Sheet (α : Type) where
  width : String
  height : String
  /-- The name that the document is saved under at first. -/
  fileName : String
  /-- What the document was saved to last, or its own name. -/
  savedTo : Destination
  transform : Affine α
  /-- The saved transforms, the latest first. -/
  saved : List (Affine α)
  /-- The parts of the current path, the latest first. -/
  backwards : List (Part α)
  current : Option (Point α)
  start : Option (Point α)
  painted : List (Painted α)

namespace Sheet

def parts {α : Type} (s : Sheet α) : List (Part α) := s.backwards.reverse

variable {α : Type} [Scalar α]

def blank (width height fileName : String) : Sheet α :=
  ⟨width, height, fileName, .here fileName, Affine.identity, [], [], none, none, []⟩

def defaultSize : Nat := 600

def default (fileName : String) : Sheet α :=
  blank (toString defaultSize) (toString defaultSize) fileName

def create (width height : Value) (fileName : String) : Except Fault (Sheet α) := do
  let w ← Length.ofValue defaultSize width
  let h ← Length.ofValue defaultSize height
  return blank w h fileName

/-- The sheet without drawing and transforms, whose document has not been saved. -/
def cleared (s : Sheet α) : Sheet α := blank s.width s.height s.fileName

def beginPath (s : Sheet α) : Sheet α := { s with backwards := [], current := none, start := none }

def map (s : Sheet α) (p : Point α) : Point α := s.transform.apply p

def setCurrent (z : Point α) (s : Sheet α) : Sheet α := { s with current := some z }

def openAt (z : Point α) (s : Sheet α) : Sheet α := { s with current := some z, start := some z }

def append (part : Part α) : Act (Sheet α) Unit := do
  match part.nonFinite? with
  | some k => throw (.notWritable k)
  | none => modify fun s => { s with backwards := part :: s.backwards }

def moveTo (p : Point α) : Act (Sheet α) Unit := do
  let z := (← get).map p
  append (.move z)
  modify (openAt z)

def lineTo (p : Point α) : Act (Sheet α) Unit := do
  let s ← get
  let z := s.map p
  if s.current.isNone then
    append (.move z)
    modify (openAt z)
  else
    append (.line z)
    modify (setCurrent z)

def ensureCurrent (p : Point α) : Act (Sheet α) Unit := do
  if (← get).current.isNone then moveTo p else pure ()

def cubicTo (first second p : Point α) : Act (Sheet α) Unit := do
  ensureCurrent first
  let s ← get
  append (.cubic (s.map first) (s.map second) (s.map p))
  modify (setCurrent (s.map p))

def quadraticTo (control p : Point α) : Act (Sheet α) Unit := do
  ensureCurrent control
  let s ← get
  append (.quadratic (s.map control) (s.map p))
  modify (setCurrent (s.map p))

/-- Joins the current point to the start of an arc, unless it is there already. -/
def joinTo (z : Point α) : Act (Sheet α) Unit := do
  match (← get).current with
  | none =>
    append (.move z)
    modify (openAt z)
  | some p =>
    let near ← Act.ofExcept (p.isClose z)
    if near then pure () else append (.line z)
    modify (setCurrent z)

/-- The part that a piece of an arc becomes. On a flat image of the ellipse it is a line. -/
def piecePart (image : Option (EllipseImage α)) (piece : EndpointArc α) (z : Point α) : Part α :=
  match image with
  | none => .line z
  | some e => .arc e.radii e.rotation piece.large (piece.clockwise != e.reversed) z

def drawPieces (image : Option (EllipseImage α)) : List (EndpointArc α) → Act (Sheet α) Unit
  | [] => pure ()
  | piece :: rest => do
    let z := (← get).map piece.finish
    append (piecePart image piece z)
    modify (setCurrent z)
    drawPieces image rest

variable [HasAxes α]

def ellipse (o : Oval α) : Act (Sheet α) Unit := do
  let (start, pieces) ← Act.ofExcept o.pieces
  joinTo ((← get).map start)
  if pieces.isEmpty then pure ()
  else
    let image ← Act.ofExcept
      ((← get).transform.ellipseImage? o.ellipse.radii o.ellipse.rotation)
    drawPieces image pieces

def closePath (s : Sheet α) : Sheet α :=
  { s with backwards := .close :: s.backwards, current := s.start }

def save (s : Sheet α) : Sheet α := { s with saved := s.transform :: s.saved }

def restore (s : Sheet α) : Sheet α :=
  match s.saved with
  | [] => s
  | m :: rest => { s with transform := m, saved := rest }

def compose (m : Affine α) (s : Sheet α) : Sheet α :=
  { s with transform := s.transform.compose m }

def paint (ink : Ink) : Act (Sheet α) (List Warning) := do
  let s ← get
  if s.backwards.isEmpty then return [.nothingToPaint]
  else if ink.isValid then
    modify fun s => { s with painted := s.painted ++ [⟨s.parts, ink⟩] }
    return []
  else throw .invalidPaint

def change (f : Sheet α → Sheet α) : Act (Sheet α) (List Warning) := do
  modify f
  return []

def draw (m : Act (Sheet α) Unit) : Act (Sheet α) (List Warning) := do
  m
  return []

def changeBy (m : Affine (Argument α)) : Act (Sheet α) (List Warning) := do
  let n ← Act.ofExcept (Entry.transform m)
  change (compose n)

/-- A curve reads its coordinates after it has started a subpath where none is open: the end
first, then the control points. -/
def startCurve (x y : Argument α) : Act (Sheet α) Unit := do
  if (← get).current.isNone then
    let p ← Act.ofExcept (Entry.position x y)
    moveTo p
  else pure ()

def performCubic (x1 y1 x2 y2 x y : Argument α) : Act (Sheet α) (List Warning) := do
  startCurve x1 y1
  let p ← Act.ofExcept (Entry.position x y)
  let first ← Act.ofExcept (Entry.position x1 y1)
  let second ← Act.ofExcept (Entry.position x2 y2)
  draw (cubicTo first second p)

def performQuadratic (x1 y1 x y : Argument α) : Act (Sheet α) (List Warning) := do
  startCurve x1 y1
  let p ← Act.ofExcept (Entry.position x y)
  let control ← Act.ofExcept (Entry.position x1 y1)
  draw (quadraticTo control p)

def perform (c : Call α) : Act (Sheet α) (List Warning) :=
  match c.primitive, c.arguments with
  | .beginPath, [] => change beginPath
  | .moveTo, [x, y] => do
    let p ← Act.ofExcept (Entry.position x y)
    draw (moveTo p)
  | .lineTo, [x, y] => do
    let p ← Act.ofExcept (Entry.position x y)
    draw (lineTo p)
  | .cubicTo, [x1, y1, x2, y2, x, y] => performCubic x1 y1 x2 y2 x y
  | .quadraticTo, [x1, y1, x, y] => performQuadratic x1 y1 x y
  | .ellipse, [cx, cy, rx, ry, rotation, startAngle, endAngle, anticlockwise] => do
    let o ← Act.ofExcept
      (Oval.ofArguments ⟨cx, cy⟩ ⟨rx, ry⟩ rotation startAngle endAngle anticlockwise)
    draw (ellipse o)
  | .closePath, [] => change closePath
  | .save, [] => change save
  | .restore, [] => change restore
  | .fill, [.style s] => paint (.fill s)
  | .fill, [_] => throw .notAStyle
  | .stroke, [.style s] => paint (.stroke s)
  | .stroke, [_] => throw .notAStyle
  | .translate, [x, y] => changeBy (Entry.shift x y)
  | .scale, [x, y] => changeBy (Entry.scaling x y)
  | .rotate, [angle] => do
    let turn ← Act.ofExcept angle.real
    let m ← Act.ofExcept (Affine.rotation turn)
    change (compose m)
  | .transform, [a, b, c, d, e, f] => changeBy ⟨a, b, c, d, e, f⟩
  | .setTransform, [a, b, c, d, e, f] => do
    let m ← Act.ofExcept (Entry.transform ⟨a, b, c, d, e, f⟩)
    change fun s => { s with transform := m }
  | _, _ => throw .wrongType

instance : Surface (Sheet α) α where
  perform := perform
  clear := modify cleared

end Sheet

end Linework
