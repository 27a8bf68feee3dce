import Linework.Number.Binary64

/-!
# Decimal text of doubles

A decimal is a whole number of units of a power of ten. `Decimal.shortest` gives the fewest
digits that read back to the same double and, of these, the nearest to it; that the result
reads back is built into the search. `Decimal.layout` is the one place that decides how a
decimal is written.
-/

set_option autoImplicit false

namespace Linework

structure Decimal where
  negative : Bool
  digits : Nat
  power : Int
  deriving DecidableEq

namespace Decimal

open Binary64

def quotient (d : Decimal) : Nat × Nat :=
  (d.digits * 10 ^ d.power.toNat, 10 ^ (-d.power).toNat)

def toFloat (d : Decimal) : Float :=
  -- The guards only keep the powers of ten small: beyond them every double is infinite or zero.
  if d.digits = 0 then nearest d.negative 0 1
  else if 400 < d.power then infinity d.negative
  else if d.power + d.digits.log2 < -400 then nearest d.negative 0 1
  else nearest d.negative d.quotient.1 d.quotient.2

def exact (negative : Bool) (significand : Nat) (exponent : Int) : Decimal :=
  ⟨negative, significand * 2 ^ exponent.toNat * 5 ^ (-exponent).toNat, min exponent 0⟩

def leadingPower (num den : Nat) : Int :=
  let low := ((num.log2 : Int) - den.log2 - 1) * 30103 / 100000
  if den * 10 ^ (low + 1).toNat ≤ num * 10 ^ (-(low + 1)).toNat then low + 1 else low

def inUnits (num den : Nat) (power : Int) : Nat × Nat :=
  (num * 10 ^ (-power).toNat, den * 10 ^ power.toNat)

def gridPoint (negative : Bool) (digits : Nat) (power : Int) (count : Nat) : Decimal :=
  if digits = 10 ^ count then ⟨negative, 1, power + count⟩ else ⟨negative, digits, power⟩

/-- Of the two neighbours on the grid with `count` digits, the one that reads back as `x`; the
nearer of two, the even one when they are equally near. -/
def onGrid? (x : Float) (negative : Bool) (num den : Nat) (count : Nat) : Option Decimal :=
  let power := leadingPower num den - count + 1
  let (n, d) := inUnits num den power
  let near := gridPoint negative (roundHalfEven n d) power count
  let low := gridPoint negative (n / d) power count
  let high := gridPoint negative (n / d + 1) power count
  if near.toFloat.toBits = x.toBits then some near
  else if low.toFloat.toBits = x.toBits then some low
  else if high.toFloat.toBits = x.toBits then some high
  else none

def shortest (x : Float) (negative : Bool) (significand : Nat) (exponent : Int) : Decimal :=
  let (num, den) := Binary64.quotient significand exponent
  ((List.range 17).findSome? fun i => onGrid? x negative num den (i + 1)).getD
    (exact negative significand exponent)

/-- Rounds a finite double to a number of decimal places, a tie going to the even digit. No
double has more than 1074 places, and none reaches 400 places before the point. -/
def roundPlaces (negative : Bool) (significand : Nat) (exponent : Int) (places : Int) : Decimal :=
  let power := -(max (-400) (min places 1074))
  let (num, den) := Binary64.quotient significand exponent
  let (n, d) := inUnits num den power
  ⟨negative, roundHalfEven n d, power⟩

def roundDigits (negative : Bool) (significand : Nat) (exponent : Int) (count : Nat) : Decimal :=
  let (num, den) := Binary64.quotient significand exponent
  let power := leadingPower num den - count + 1
  let (n, d) := inUnits num den power
  ⟨negative, roundHalfEven n d, power⟩

/-- Digits after the point without an exponent, or with `e` and an exponent of two digits or
more outside 10^-4 … 10^16. A number written without a point ends in `.0` if `pointZero`. -/
def layout (pointZero : Bool) (digits : Nat) (power : Int) : List Char :=
  let text := Nat.toDigits 10 digits
  let leading := (text.length : Int) - 1 + power
  let tail := if pointZero then ['.', '0'] else []
  if digits = 0 then '0' :: tail
  else if leading < -4 ∨ 16 ≤ leading then
    let mantissa := match text with
      | [] => []
      | [c] => [c]
      | c :: rest => c :: '.' :: rest
    let size := Nat.toDigits 10 leading.natAbs
    mantissa ++ ['e', if leading < 0 then '-' else '+'] ++
      List.replicate (2 - size.length) '0' ++ size
  else if 0 ≤ power then text ++ List.replicate power.toNat '0' ++ tail
  else if 0 ≤ leading then
    text.take (leading.toNat + 1) ++ '.' :: text.drop (leading.toNat + 1)
  else '0' :: '.' :: List.replicate (-leading - 1).toNat '0' ++ text

end Decimal

namespace Binary64

def text (pointZero : Bool) (x : Float) : List Char :=
  match datum x with
  | .nan => ['n', 'a', 'n']
  | .infinite negative => (if negative then ['-'] else []) ++ ['i', 'n', 'f']
  | .finite negative m e =>
    let d := Decimal.shortest x negative m e
    (if negative then ['-'] else []) ++ Decimal.layout pointZero d.digits d.power

def roundPlaces (x : Float) (places : Int) : Float :=
  match datum x with
  | .finite negative m e => (Decimal.roundPlaces negative m e places).toFloat
  | _ => x

def roundDigits (x : Float) (count : Nat) : Float :=
  match datum x with
  | .finite negative m e =>
    if m = 0 then x else (Decimal.roundDigits negative m e count).toFloat
  | _ => x

end Binary64

end Linework
