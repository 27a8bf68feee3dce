import Linework.Text.Digit

/-!
# Paints of a document

A paint is a text of pieces that are each a keyword, a colour in base sixteen, a colour by its
components, a colour of a profile, or a reference. A piece that ends in a parenthesis ends there;
the others are separated by blanks. The text without pieces is a paint, too.
-/

set_option autoImplicit false

namespace Linework.Paint

def keywords : List String :=
  ["none", "currentColor", "inherit",
    "aliceblue", "antiquewhite", "aqua", "aquamarine", "azure", "beige", "bisque", "black",
    "blanchedalmond", "blue", "blueviolet", "brown", "burlywood", "cadetblue", "chartreuse",
    "chocolate", "coral", "cornflowerblue", "cornsilk", "crimson", "cyan", "darkblue", "darkcyan",
    "darkgoldenrod", "darkgray", "darkgreen", "darkgrey", "darkkhaki", "darkmagenta",
    "darkolivegreen", "darkorange", "darkorchid", "darkred", "darksalmon", "darkseagreen",
    "darkslateblue", "darkslategray", "darkslategrey", "darkturquoise", "darkviolet", "deeppink",
    "deepskyblue", "dimgray", "dimgrey", "dodgerblue", "firebrick", "floralwhite", "forestgreen",
    "fuchsia", "gainsboro", "ghostwhite", "gold", "goldenrod", "gray", "green", "greenyellow",
    "grey", "honeydew", "hotpink", "indianred", "indigo", "ivory", "khaki", "lavender",
    "lavenderblush", "lawngreen", "lemonchiffon", "lightblue", "lightcoral", "lightcyan",
    "lightgoldenrodyellow", "lightgray", "lightgreen", "lightgrey", "lightpink", "lightsalmon",
    "lightseagreen", "lightskyblue", "lightslategray", "lightslategrey", "lightsteelblue",
    "lightyellow", "lime", "limegreen", "linen", "magenta", "maroon", "mediumaquamarine",
    "mediumblue", "mediumorchid", "mediumpurple", "mediumseagreen", "mediumslateblue",
    "mediumspringgreen", "mediumturquoise", "mediumvioletred", "midnightblue", "mintcream",
    "mistyrose", "moccasin", "navajowhite", "navy", "oldlace", "olive", "olivedrab", "orange",
    "orangered", "orchid", "palegoldenrod", "palegreen", "paleturquoise", "palevioletred",
    "papayawhip", "peachpuff", "peru", "pink", "plum", "powderblue", "purple", "red", "rosybrown",
    "royalblue", "saddlebrown", "salmon", "sandybrown", "seagreen", "seashell", "sienna", "silver",
    "skyblue", "slateblue", "slategray", "slategrey", "snow", "springgreen", "steelblue", "tan",
    "teal", "thistle", "tomato", "turquoise", "violet", "wheat", "white", "whitesmoke", "yellow",
    "yellowgreen"]

def isDigit (c : Char) : Bool := (Text.digitValue? c).isSome

def isHex : List Char → Bool
  | '#' :: s => (s.length == 3 || s.length == 6) && s.all Text.isHexDigit
  | _ => false

def isWhole (s : List Char) : Bool := !s.isEmpty && s.all isDigit

def isPercentage (s : List Char) : Bool :=
  match s.getLast? with
  | some '%' =>
    let number := s.dropLast
    let rest := number.dropWhile isDigit
    !(number.takeWhile isDigit).isEmpty &&
      match rest with
      | [] => true
      | '.' :: fraction => fraction.all isDigit
      | _ => false
  | _ => false

def parts (s : List Char) : List (List Char) :=
  (s.splitOn ',').map (Text.trim (· == ' '))

/-- What stands between `opening` and a closing parenthesis at the end. -/
def enclosed? (opening s : List Char) : Option (List Char) :=
  if opening.isPrefixOf s ∧ s.getLast? = some ')' then some (s.drop opening.length).dropLast
  else none

def isComponents (s : List Char) : Bool :=
  match enclosed? "rgb(".toList s with
  | some inner =>
    (parts inner).length == 3 && ((parts inner).all isWhole || (parts inner).all isPercentage)
  | none => false

def isReference (s : List Char) : Bool :=
  match enclosed? "url(".toList s with
  | some inner => !inner.contains '\n' && !(inner.all Text.isBlank)
  | none => false

def isNameChar (c : Char) : Bool := !([' ', '\t', '\n', '\r', ',', '(', ')'].contains c)

def isName (s : List Char) : Bool :=
  let name := Text.trim Text.isBlank s
  !name.isEmpty && name.all isNameChar

/-- A colour of a profile: names on one line with a single space or comma between. -/
def isProfileColor (s : List Char) : Bool :=
  match enclosed? "icc-color(".toList s with
  | some inner =>
    !inner.contains '\n' && (inner.splitOnP fun c => c == ' ' || c == ',').all isName
  | none => false

def isPiece (s : List Char) : Bool :=
  keywords.contains (String.ofList s) || isHex s || isComponents s || isProfileColor s ||
    isReference s

def toParenthesis? : List Char → Option (List Char × List Char)
  | [] => none
  | c :: rest =>
    if c = ')' then some ([c], rest)
    else (toParenthesis? rest).map fun (head, tail) => (c :: head, tail)

theorem length_toParenthesis_lt {s head tail : List Char}
    (h : toParenthesis? s = some (head, tail)) : tail.length < s.length := by
  induction s generalizing head with
  | nil => simp [toParenthesis?] at h
  | cons c rest ih =>
    unfold toParenthesis? at h
    split at h
    · simp_all
    · cases hr : toParenthesis? rest with
      | none => simp [hr] at h
      | some p =>
        simp only [hr, Option.map_some, Option.some.injEq, Prod.mk.injEq] at h
        have hp : toParenthesis? rest = some (p.1, tail) := by rw [hr, ← h.2]
        have := ih hp
        simp only [List.length_cons]
        omega

def pieces (s : List Char) : List (List Char) :=
  match _h : toParenthesis? s with
  | some (head, tail) => Text.trim Text.isBlank head :: pieces tail
  | none => Text.words Text.isBlank s
termination_by s.length
decreasing_by exact length_toParenthesis_lt _h

def isValid (text : List Char) : Bool :=
  (pieces (Text.trim Text.isBlank text)).all isPiece

end Linework.Paint
