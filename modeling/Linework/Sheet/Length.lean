import Linework.Fault
import Linework.Text.Blank
import Linework.Value

/-!
# Lengths of a document

The size of a sheet is given by numbers or by texts. A text is a number in ASCII digits with an
optional sign, point and exponent, which ends in a digit or an exponent, and an optional unit; it
may have blanks around it. A flag counts as a number, and a whole number that no double comes near
does not.
-/

set_option autoImplicit false

namespace Linework.Length

def units : List (List Char) :=
  ["cm", "em", "ex", "in", "mm", "pc", "pt", "px", "%"].map String.toList

def isUnit (s : List Char) : Bool := s.isEmpty || units.contains s

def isSign (c : Char) : Bool := c == '+' || c == '-'

def afterSign : List Char → List Char
  | c :: rest => if isSign c then rest else c :: rest
  | [] => []

def afterDigits (s : List Char) : List Char := s.dropWhile Char.isDigit

def beginsWithDigit : List Char → Bool
  | c :: _ => c.isDigit
  | [] => false

def afterNumber? (s : List Char) : Option (List Char) :=
  match afterDigits s with
  | '.' :: rest =>
    if beginsWithDigit rest then some (afterDigits rest)
    else if beginsWithDigit s then some ('.' :: rest)
    else none
  | rest => if beginsWithDigit s then some rest else none

def afterExponent (s : List Char) : List Char :=
  match s with
  | c :: rest =>
    let digits := afterSign rest
    if (c == 'e' || c == 'E') && beginsWithDigit digits then afterDigits digits else s
  | [] => []

def isValid (s : List Char) : Bool :=
  match afterNumber? (afterSign s) with
  | some rest => isUnit (afterExponent rest)
  | none => false

/-- Whether a whole number has a finite double next to it. -/
def isInRange (n : Int) : Bool :=
  Binary64.isFinite (Decimal.toFloat ⟨decide (n < 0), n.natAbs, 0⟩)

def ofValue (fallback : Nat) (v : Value) : Except Fault String :=
  match v with
  | .none => .ok (toString fallback)
  | .flag _ => .ok v.toText
  | .int n => if isInRange n then .ok v.toText else .error .invalidLength
  | .real _ => .ok v.toText
  | .text s =>
    if isValid (Text.trim Text.isBlank s.toList) then .ok s else .error .invalidLength
  | _ => .error .invalidLength

end Linework.Length
