import Linework.Style.Color

/-!
# Drawing styles

A style holds the attributes with which a path is filled or stroked. It is made from settings,
one value for each attribute, which are checked together every time: `Settings.toStyle` is the
only way to a style.
-/

set_option autoImplicit false

namespace Linework

inductive LineCap where
  | butt
  | round
  | square
  deriving DecidableEq

inductive LineJoin where
  | miter
  | round
  | bevel
  deriving DecidableEq

namespace LineCap

def name : LineCap → String
  | butt => "butt"
  | round => "round"
  | square => "square"

def ofValue (v : Value) : Except Fault LineCap :=
  match v with
  | .text "butt" => .ok butt
  | .text "round" => .ok round
  | .text "square" => .ok square
  | v => .error (.unsupportedCap v.toText)

end LineCap

namespace LineJoin

def name : LineJoin → String
  | miter => "miter"
  | round => "round"
  | bevel => "bevel"

def ofValue (v : Value) : Except Fault LineJoin :=
  match v with
  | .text "miter" => .ok miter
  | .text "round" => .ok round
  | .text "bevel" => .ok bevel
  | v => .error (.unsupportedJoin v.toText)

end LineJoin

inductive StyleAttribute where
  | fillStyle
  | strokeStyle
  | lineWidth
  | lineCap
  | lineJoin
  | miterLimit
  | globalAlpha
  deriving DecidableEq

namespace StyleAttribute

def all : List StyleAttribute :=
  [fillStyle, strokeStyle, lineWidth, lineCap, lineJoin, miterLimit, globalAlpha]

def name : StyleAttribute → String
  | fillStyle => "fill_style"
  | strokeStyle => "stroke_style"
  | lineWidth => "line_width"
  | lineCap => "line_cap"
  | lineJoin => "line_join"
  | miterLimit => "miter_limit"
  | globalAlpha => "global_alpha"

def ofName? (name : String) : Option StyleAttribute :=
  all.find? fun a => a.name == name

end StyleAttribute

structure Style where
  fill : Value
  stroke : Value
  lineWidth : Float
  lineCap : LineCap
  lineJoin : LineJoin
  miterLimit : Float
  globalAlpha : Float

/-- One value for each attribute, not yet checked. -/
abbrev Settings := StyleAttribute → Value

/-- Attributes by name, as they are given to a drawing operation. -/
abbrev Changes := List (String × Value)

namespace Settings

def put (s : Settings) (a : StyleAttribute) (v : Value) : Settings :=
  fun b => if b = a then v else s b

/-- The settings with changes laid over them, a later one counting more than an earlier one. -/
def override (s : Settings) : Changes → Settings
  | [] => s
  | (name, v) :: rest =>
    match StyleAttribute.ofName? name with
    | some a => override (s.put a v) rest
    | none => override s rest

def color (v : Value) : Except Fault Value :=
  match v with
  | .list items => (Color.ofValues items).map .text
  | v => .ok v

def number (v : Value) : Except Fault Float :=
  match v.number? with
  | some x => .ok x
  | none => .error .wrongType

def checkAlpha (alpha : Float) : Except Fault Unit :=
  if 0 ≤ alpha ∧ alpha ≤ 1 then .ok () else .error .alphaOutOfRange

def positiveWidths (width miter : Value) : Except Fault (Float × Float) := do
  let w ← number width
  if w ≤ 0 then .error .widthNotPositive
  else do
    let m ← number miter
    if m ≤ 0 then .error .widthNotPositive else .ok (w, m)

def checkRange (v : Value) : Except Fault Unit :=
  match v with
  | .int n =>
    if Binary64.isFinite (Decimal.toFloat ⟨decide (n < 0), n.natAbs, 0⟩) then .ok ()
    else .error .overflow
  | _ => .ok ()

/-- The style with the given settings, or the first thing that is wrong with them. An opacity
within its bounds is in range. -/
def toStyle (s : Settings) : Except Fault Style := do
  let cap ← LineCap.ofValue (s .lineCap)
  let join ← LineJoin.ofValue (s .lineJoin)
  let alpha ← number (s .globalAlpha)
  checkAlpha alpha
  let (width, miter) ← positiveWidths (s .lineWidth) (s .miterLimit)
  let fill ← color (s .fillStyle)
  let stroke ← color (s .strokeStyle)
  checkRange (s .lineWidth)
  checkRange (s .miterLimit)
  return ⟨fill, stroke, width, cap, join, miter, alpha⟩

end Settings

namespace Style

def default : Style :=
  ⟨.text "#000000", .text "#000000", 1, .butt, .miter, 10, 1⟩

def settings (s : Style) : Settings
  | .fillStyle => s.fill
  | .strokeStyle => s.stroke
  | .lineWidth => .real s.lineWidth
  | .lineCap => .text s.lineCap.name
  | .lineJoin => .text s.lineJoin.name
  | .miterLimit => .real s.miterLimit
  | .globalAlpha => .real s.globalAlpha

def unknownNames (changes : Changes) : List String :=
  (changes.map Prod.fst).filter fun name => (StyleAttribute.ofName? name).isNone

def create (changes : Changes) : Except Fault Style :=
  if (unknownNames changes).isEmpty then (default.settings.override changes).toStyle
  else .error .wrongType

def reservedName : String := "self"

def updated (s : Style) (changes : Changes) : Except Fault Style :=
  if changes.any fun a => a.1 == reservedName then .error .wrongType
  else
    match unknownNames changes with
    | [] => (s.settings.override changes).toStyle
    | names =>
      .error (.unknownAttributes (names.eraseDups.mergeSort fun a b => decide (a ≤ b)))

def presentation (s : Style) : List (String × Value) :=
  [("stroke_width", .real s.lineWidth), ("stroke_linecap", .text s.lineCap.name),
    ("stroke_linejoin", .text s.lineJoin.name), ("stroke_miterlimit", .real s.miterLimit),
    ("opacity", .real s.globalAlpha)]

end Style

end Linework
