import Linework.Number.Scalar
import Linework.Outline.Numeral
import Linework.Text.Digit

/-!
# Numbers given as texts

A text is a number if it is a numeral or one of the words for what is infinite or no number, in
any case and with white space around it. The digits of a numeral may be any decimal digits, and
single underscores may stand between them.
-/

set_option autoImplicit false

namespace Linework.Reading

def plainDigit (c : Char) : Char :=
  match Text.digitValue? c with
  | some d => Char.ofNat (0x30 + d)
  | none => c

/-- A text without its underscores, each of which has to stand between two digits. -/
def withoutUnderscores? : List Char → Option (List Char)
  | [] => some []
  | ['_'] => none
  | c :: '_' :: d :: rest =>
    if c.isDigit && d.isDigit then (withoutUnderscores? (d :: rest)).map (c :: ·) else none
  | c :: rest => if c = '_' then none else (withoutUnderscores? rest).map (c :: ·)

variable {α : Type} [Scalar α]

def ofWord? (s : List Char) : Option α :=
  let (negative, word) := Outline.sign (s.map Char.toLower)
  if word = "nan".toList then some Scalar.notANumber
  else if word = "inf".toList ∨ word = "infinity".toList then
    some (if negative then -Scalar.infinite else Scalar.infinite)
  else none

def number? (text : List Char) : Option α :=
  match withoutUnderscores? ((Text.trim Text.isWhite text).map plainDigit) with
  | none => none
  | some s =>
    match Outline.numeral? s with
    | some (d, []) => some (Scalar.ofDecimal d)
    | _ => ofWord? s

end Linework.Reading
