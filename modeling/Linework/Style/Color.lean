import Linework.Fault
import Linework.Text.Digit
import Linework.Value

/-!
# Colours as components

A colour may be given by the whole numbers of its components; it is kept as `#` and their digits
in base sixteen, at least two for each. Reading the components back cuts the digits into equal
thirds.
-/

set_option autoImplicit false

namespace Linework.Color

def component (n : Int) : List Char :=
  (if n < 0 then '-' :: Text.hexPadded 1 n.natAbs else Text.hexPadded 2 n.toNat).map Char.toUpper

def ofComponents (red green blue : Int) : List Char :=
  '#' :: component red ++ component green ++ component blue

def ofValues (items : List Value) : Except Fault String :=
  match items.map Value.int? with
  | [some red, some green, some blue] => .ok (String.ofList (ofComponents red green blue))
  | _ => .error .wrongType

def cut (size : Nat) (s : List Char) : List (List Char) :=
  (List.range ((s.length + size - 1) / size)).map fun i => (s.drop (i * size)).take size

def readPiece (piece : List Char) : Except Fault Int :=
  match Text.hexInt? piece with
  | some n => .ok n
  | none => .error (.notHexadecimal (String.ofList piece))

/-- The components of a colour written in base sixteen. Marks in front do not count. A length that
is no multiple of three gives more than three components. -/
def components (text : String) : Except Fault (List Int) :=
  let s := text.toList.dropWhile (· == '#')
  if s.length / 3 = 0 then .error .emptyColorPiece
  else (cut (s.length / 3) s).mapM readPiece

end Linework.Color
