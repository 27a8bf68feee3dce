import Linework.Sheet.Basic

/-!
# The document of a sheet

A document is an `svg` element that holds an empty `defs` element and a `path` element for every
painted path. It is written on one line with all attributes in alphabetical order, or with one
element on each line and the name spaces first. Attributes without a text are left out.
-/

set_option autoImplicit false

namespace Linework

abbrev Markup := List (String × String)

namespace Markup

def escapedChar (c : Char) : List Char :=
  if c = '&' then "&amp;".toList
  else if c = '<' then "&lt;".toList
  else if c = '>' then "&gt;".toList
  else if c = '"' then "&quot;".toList
  else [c]

def escapedOnLine (c : Char) : List Char :=
  if c = '\t' then "&#09;".toList
  else if c = '\n' then "&#10;".toList
  else if c = '\r' then "&#13;".toList
  else escapedChar c

def lineFeeds : List Char → List Char
  | [] => []
  | '\r' :: '\n' :: rest => '\n' :: lineFeeds rest
  | c :: rest => (if c = '\r' then '\n' else c) :: lineFeeds rest

def written (escape : Char → List Char) (attributes : Markup) : String :=
  String.join ((attributes.filter fun a => !a.2.isEmpty).map fun a =>
    " " ++ a.1 ++ "=\"" ++ String.ofList (a.2.toList.flatMap escape) ++ "\"")

end Markup

namespace Painted

def dashed (name : String) : String :=
  String.ofList (name.toList.map fun c => if c = '_' then '-' else c)

def markup (p : Painted Float) : Markup :=
  let d := String.ofList (Part.pathText p.parts)
  match p.ink with
  | .fill s =>
    [("d", d), ("fill", s.fill.toText), ("opacity", (Value.real s.globalAlpha).toText),
      ("stroke", "none")]
  | .stroke s =>
    let given := s.presentation.map fun (name, v) => (dashed name, v.toText)
    (("d", d) :: ("fill", "none") :: ("stroke", s.stroke.toText) :: given).mergeSort
      fun a b => decide (a.1 ≤ b.1)

def hasPlainRadii : Part Float → Bool
  | .arc radii _ _ _ _ =>
    [radii.x, radii.y].all fun r => (Outline.Coordinate.text r).head? != some '-'
  | _ => true

/-- A path of a document has to begin with a move, and none of its radii may be negative. -/
def isWritable (p : Painted Float) : Bool :=
  match p.parts with
  | .move _ :: _ => p.parts.all hasPlainRadii
  | _ => false

end Painted

namespace Sheet

def size (s : Sheet Float) : Markup :=
  [("baseProfile", "full"), ("height", s.height), ("version", "1.1"), ("width", s.width)]

def nameSpaces : Markup :=
  [("xmlns", "http://www.w3.org/2000/svg"), ("xmlns:ev", "http://www.w3.org/2001/xml-events"),
    ("xmlns:xlink", "http://www.w3.org/1999/xlink")]

def checked (s : Sheet Float) (text : String) : Except Fault String :=
  if s.painted.all Painted.isWritable then .ok text else .error .invalidOutline

def toText (s : Sheet Float) : Except Fault String :=
  s.checked ("<svg" ++ (s.size ++ nameSpaces).written Markup.escapedOnLine ++ "><defs />" ++
    String.join (s.painted.map fun p =>
      "<path" ++ p.markup.written Markup.escapedOnLine ++ " />") ++ "</svg>")

def isDocumentChar (c : Char) : Bool :=
  (0x20 ≤ c.toNat && c.toNat != 0xFFFE && c.toNat != 0xFFFF) || c == '\t' || c == '\n' ||
    c == '\r'

def givenTexts (s : Sheet Float) : List String :=
  s.width :: s.height :: s.painted.map fun p => p.ink.paint.toText

/-- The document as it is saved. For the layout it is read again, which not every text stands. -/
def toFileText (s : Sheet Float) : Except Fault String := do
  let text ← s.checked ("<?xml version=\"1.0\" encoding=\"utf-8\" ?>\n<svg" ++
    (nameSpaces ++ s.size).written Markup.escapedChar ++ ">\n  <defs/>\n" ++
    String.join (s.painted.map fun p =>
      "  <path" ++ p.markup.written Markup.escapedChar ++ "/>\n") ++ "</svg>\n")
  if s.givenTexts.all fun t => t.toList.all isDocumentChar then
    .ok (String.ofList (Markup.lineFeeds text.toList))
  else .error .invalidMarkup

end Sheet

end Linework
