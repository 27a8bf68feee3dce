import Linework.Text.Blank

/-!
# Digits and whole numbers in base sixteen

Every decimal digit of Unicode counts as a digit. A whole number in base sixteen may be
surrounded by white space, begin with a sign and with `0x`, and have single underscores between
its digits or after the `0x`.
-/

set_option autoImplicit false

namespace Linework.Text

/-- The zeros of the decimal digits of Unicode 14; nine more digits follow each of them. -/
def digitZeros : List Nat :=
  [0x30, 0x660, 0x6F0, 0x7C0, 0x966, 0x9E6, 0xA66, 0xAE6, 0xB66, 0xBE6, 0xC66, 0xCE6, 0xD66,
    0xDE6, 0xE50, 0xED0, 0xF20, 0x1040, 0x1090, 0x17E0, 0x1810, 0x1946, 0x19D0, 0x1A80, 0x1A90,
    0x1B50, 0x1BB0, 0x1C40, 0x1C50, 0xA620, 0xA8D0, 0xA900, 0xA9D0, 0xA9F0, 0xAA50, 0xABF0,
    0xFF10, 0x104A0, 0x10D30, 0x11066, 0x110F0, 0x11136, 0x111D0, 0x112F0, 0x11450, 0x114D0,
    0x11650, 0x116C0, 0x11730, 0x118E0, 0x11950, 0x11C50, 0x11D50, 0x11DA0, 0x16A60, 0x16AC0,
    0x16B50, 0x1D7CE, 0x1D7D8, 0x1D7E2, 0x1D7EC, 0x1D7F6, 0x1E140, 0x1E2F0, 0x1E950, 0x1FBF0]

def digitValue? (c : Char) : Option Nat :=
  (digitZeros.find? fun z => z ≤ c.toNat && c.toNat < z + 10).map (c.toNat - ·)

def hexValue? (c : Char) : Option Nat :=
  if 'a' ≤ c ∧ c ≤ 'f' then some (c.toNat - 'a'.toNat + 10)
  else if 'A' ≤ c ∧ c ≤ 'F' then some (c.toNat - 'A'.toNat + 10)
  else digitValue? c

def isHexDigit (c : Char) : Bool :=
  c.isDigit || ('a' ≤ c && c ≤ 'f') || ('A' ≤ c && c ≤ 'F')

/-- Digits with single underscores between them; the flag says that a digit is due. -/
def hexDigits? : Bool → Nat → List Char → Option Nat
  | due, n, [] => if due then none else some n
  | due, n, c :: rest =>
    if c = '_' then if due then none else hexDigits? true n rest
    else
      match hexValue? c with
      | none => none
      | some d => hexDigits? false (16 * n + d) rest

def hexBody? (s : List Char) : Option Nat :=
  match s with
  | z :: x :: rest =>
    if digitValue? z = some 0 ∧ (x = 'x' ∨ x = 'X') then
      match rest with
      | '_' :: rest => hexDigits? true 0 rest
      | rest => hexDigits? true 0 rest
    else hexDigits? true 0 s
  | s => hexDigits? true 0 s

def hexInt? (s : List Char) : Option Int :=
  match trim isWhite s with
  | '-' :: rest => (hexBody? rest).map fun n => -(n : Int)
  | '+' :: rest => (hexBody? rest).map fun n => (n : Int)
  | rest => (hexBody? rest).map fun n => (n : Int)

end Linework.Text
