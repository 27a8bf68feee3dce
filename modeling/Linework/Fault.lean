import Linework.Outline.Command
import Linework.Text.Quoted

/-!
# What can go wrong

A fault is a cause, with the data that its message shows. Faults fall into kinds, which form a
small hierarchy: every fault of a path is a fault of a value.
-/

set_option autoImplicit false

namespace Linework

inductive Curve where
  | cubic
  | quadratic
  deriving DecidableEq

inductive NonFinite where
  | nan
  | positive
  | negative
  deriving DecidableEq

inductive Malformed where
  | unexpected (leftover path : String)
  | leading (path : String)
  | noCommand (path : String)
  | outOfRange (path : String)
  deriving DecidableEq

inductive Fault where
  | noCurrentPoint
  | noOpenSubpath
  | noSmoothContext (curve : Curve)
  | argumentCount (command : Outline.Command) (given : Nat)
  | malformedPath (reason : Malformed)
  | unknownCommand (shown : String)
  | unsupportedUnit (text : String)
  | unsupportedCap (text : String)
  | unsupportedJoin (text : String)
  | alphaOutOfRange
  | widthNotPositive
  | unknownAttributes (names : List String)
  | unknownOperation (name : String)
  | notAStyle
  | negativeRadii
  | negativeRadius
  | coincidentEndpoints
  | zeroRadius
  | noSuchArc
  | zeroVector
  | notWritable (number : NonFinite)
  | notANumber (shown : String)
  | textCoordinate
  | uneven (lengths : List Nat)
  | tooDeep (lengths flat : List Nat)
  | outsideDomain
  | emptyColorPiece
  | notHexadecimal (text : String)
  | fileNotFound
  | emptyName
  | nullInName
  | nameTooLong (name : String)
  | nameOfDirectory
  | noSuchDirectory
  | notADirectory
  | wrongType
  | invalidPaint
  | invalidLength
  | invalidOutline
  | invalidMarkup
  | divisionByZero
  | overflow
  | unsupported
  deriving DecidableEq

inductive FaultKind where
  | value
  | path
  | noCurrentPoint
  | noSmoothContext
  | argumentCount
  | malformedPath
  | attributes
  | unknownAttribute
  | file
  | directory
  | missingFile
  | notADirectory
  | type
  | markup
  | zeroDivision
  | overflow
  | unsupported
  deriving DecidableEq

namespace NonFinite

def text : NonFinite → String
  | nan => "nan"
  | positive => "inf"
  | negative => "-inf"

end NonFinite

namespace Malformed

def message : Malformed → String
  | unexpected leftover path =>
    "Unexpected characters " ++ String.ofList (Text.quoted leftover.toList) ++ " in path " ++
      String.ofList (Text.quoted path.toList)
  | leading path =>
    "Path " ++ String.ofList (Text.quoted path.toList) ++ " must begin with a command"
  | noCommand path => "Bad path: " ++ String.ofList (Text.quoted path.toList)
  | outOfRange path => "Number out of range in path " ++ String.ofList (Text.quoted path.toList)

end Malformed

namespace Curve

def name : Curve → String
  | cubic => "cubic"
  | quadratic => "quadratic"

end Curve

namespace Fault

def countMessage (command : Outline.Command) (given : Nat) : String :=
  if command.verb = .close then "close_path() takes no arguments (" ++ toString given ++ " given)"
  else
    command.method ++ "() (" ++ String.singleton command.letter ++
      ") takes a positive multiple of " ++ toString command.groupSize ++ " arguments (" ++
      toString given ++ " given)"

/-- Lengths in parentheses; a single one keeps a comma. -/
def lengthsText (separator : String) (lengths : List Nat) : String :=
  match lengths with
  | [n] => "(" ++ toString n ++ ",)"
  | _ => "(" ++ String.intercalate separator (lengths.map toString) ++ ")"

/-- The wording of a fault; empty where the kind of fault says it all. -/
def message : Fault → String
  | noCurrentPoint => "No current point; can't use relative coordinates"
  | noOpenSubpath => "No current point; start the path with a moveto"
  | noSmoothContext curve => "Last command was not a " ++ curve.name ++ " bezier"
  | argumentCount command given => countMessage command given
  | malformedPath reason => reason.message
  | unknownCommand shown => shown ++ " is not a valid Command"
  | unsupportedUnit text => "Unsupported angle unit: " ++ text
  | unsupportedCap text => "Unsupported line cap: " ++ text
  | unsupportedJoin text => "Unsupported line join: " ++ text
  | alphaOutOfRange => "global_alpha must lie between 0 and 1."
  | widthNotPositive => "line_width and miter_limit must be positive."
  | unknownAttributes names =>
    "Unknown style attribute(s): " ++ String.intercalate ", " names
  | negativeRadii => "The radii of an arc must not be negative."
  | negativeRadius => "The radius of an arc must not be negative."
  | coincidentEndpoints => "An arc with coincident endpoints has no center."
  | zeroRadius => "An arc with a zero radius is a straight line."
  | noSuchArc => "No such elliptic arc exists."
  | zeroVector => "The zero vector has no direction."
  | notWritable number => "Can't write " ++ number.text ++ " into a d-string."
  | notANumber shown => "could not convert string to float: " ++ shown
  | textCoordinate => "data type must provide an itemsize"
  | uneven lengths =>
    "setting an array element with a sequence. The requested array has an inhomogeneous shape " ++
      "after " ++ toString lengths.length ++ " dimensions. The detected shape was " ++
      lengthsText ", " lengths ++ " + inhomogeneous part."
  | tooDeep lengths flat =>
    "could not broadcast input array from shape " ++ lengthsText "," lengths ++ " into shape " ++
      lengthsText "," flat
  | outsideDomain => "math domain error"
  | emptyColorPiece => "range() arg 3 must not be zero"
  | notHexadecimal text =>
    "invalid literal for int() with base 16: " ++
      String.ofList ((Text.quoted text.toList).take 200)
  | fileNotFound => "\n\nFile not found."
  | nullInName => "embedded null byte"
  | nameTooLong name =>
    "[Errno 36] File name too long: " ++ String.ofList (Text.quoted name.toList)
  | unknownOperation _ | notAStyle | wrongType | invalidPaint | invalidLength => ""
  | invalidOutline | invalidMarkup | emptyName | nameOfDirectory => ""
  | noSuchDirectory | notADirectory => ""
  | divisionByZero | overflow | unsupported => ""

def kind : Fault → FaultKind
  | noCurrentPoint | noOpenSubpath => .noCurrentPoint
  | noSmoothContext _ => .noSmoothContext
  | argumentCount .. => .argumentCount
  | malformedPath _ => .malformedPath
  | unknownAttributes _ => .unknownAttribute
  | unknownOperation _ | notAStyle => .attributes
  | fileNotFound | nameTooLong _ => .file
  | nameOfDirectory => .directory
  | emptyName | noSuchDirectory => .missingFile
  | notADirectory => .notADirectory
  | wrongType | invalidPaint | invalidLength | invalidOutline => .type
  | invalidMarkup => .markup
  | divisionByZero => .zeroDivision
  | overflow => .overflow
  | unsupported => .unsupported
  | unknownCommand _ | unsupportedUnit _ | unsupportedCap _ | unsupportedJoin _ => .value
  | alphaOutOfRange | widthNotPositive | negativeRadii | negativeRadius => .value
  | coincidentEndpoints | zeroRadius | noSuchArc | zeroVector | notWritable _ => .value
  | notANumber _ | textCoordinate | uneven _ | tooDeep .. | nullInName => .value
  | outsideDomain | emptyColorPiece | notHexadecimal _ => .value

end Fault

namespace FaultKind

def parent? : FaultKind → Option FaultKind
  | path => some value
  | noCurrentPoint | noSmoothContext | argumentCount | malformedPath => some path
  | unknownAttribute => some attributes
  | directory | missingFile | notADirectory => some file
  | _ => none

def within (kind outer : FaultKind) : Bool :=
  kind == outer ||
    match kind.parent? with
    | none => false
    | some k => k == outer || k.parent? == some outer

def defaultMessage : FaultKind → String
  | noCurrentPoint => Fault.noCurrentPoint.message
  | _ => ""

end FaultKind

inductive Warning where
  | restoreIgnored
  | revertIgnored
  | nothingToPaint
  deriving DecidableEq

def Warning.message : Warning → String
  | restoreIgnored => "restore() called without a matching save(); ignored."
  | revertIgnored => "revert() called without a matching save(); ignored."
  | nothingToPaint => "Nothing to paint; the current path is empty."

end Linework
