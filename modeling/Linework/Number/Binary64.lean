/-!
# Doubles as exact numbers

A finite double is a whole number of units of a power of two. `datum` takes a double apart and
`nearest` rounds a quotient of naturals to the nearest double, a tie going to the even
significand. All arithmetic here is on naturals and integers, so it can be reasoned about.
-/

set_option autoImplicit false

namespace Linework.Binary64

-- Powers of naturals here are those of the core library, whichever others are in scope.
@[default_instance high]
scoped instance naturalPower : Pow Nat Nat := instPowNat

/-- What a double stands for; minus zero is the negative number with significand zero. -/
inductive Datum where
  | finite (negative : Bool) (significand : Nat) (exponent : Int)
  | infinite (negative : Bool)
  | nan
  deriving DecidableEq

def datum (x : Float) : Datum :=
  let word : Nat := x.toBits.toNat
  let negative := decide (2 ^ 63 ≤ word)
  let field : Nat := word / 2 ^ 52 % 2 ^ 11
  let fraction : Nat := word % 2 ^ 52
  if field = 2047 then
    if fraction = 0 then .infinite negative else .nan
  else if field = 0 then .finite negative fraction (-1074)
  else .finite negative (fraction + 2 ^ 52) ((field : Int) - 1075)

def roundHalfEven (num den : Nat) : Nat :=
  let q := num / den
  let r := num % den
  if 2 * r < den then q else if den < 2 * r then q + 1 else q + q % 2

/-- The least exponent, from that of the subnormals upwards, at which the whole part of the
quotient fits into 53 bits. -/
def unitExponent (num den : Nat) : Int :=
  let top : Int := (num.log2 : Int) - den.log2
  max (-1074) (if num <<< den.log2 < den <<< num.log2 then top - 53 else top - 52)

def magnitudeWord (num den : Nat) : Nat :=
  if num = 0 then 0
  else
    let e := unitExponent num den
    let m := roundHalfEven (num * 2 ^ (-e).toNat) (den * 2 ^ e.toNat)
    -- The leading bit of the significand counts the exponent field up by one, and so does a carry.
    min ((e + 1074).toNat * 2 ^ 52 + m) (2047 * 2 ^ 52)

def ofMagnitudeWord (negative : Bool) (word : Nat) : Float :=
  Float.ofBits (UInt64.ofNat (if negative then word + 2 ^ 63 else word))

def nearest (negative : Bool) (num den : Nat) : Float :=
  ofMagnitudeWord negative (magnitudeWord num den)

def infinity (negative : Bool) : Float :=
  ofMagnitudeWord negative (2047 * 2 ^ 52)

def notANumber : Float := Float.ofBits 0x7FF8000000000000

def quotient (significand : Nat) (exponent : Int) : Nat × Nat :=
  (significand * 2 ^ exponent.toNat, 2 ^ (-exponent).toNat)

def nearestInt (num : Int) (den : Nat) : Float :=
  nearest (decide (num < 0)) num.natAbs den

def isFinite (x : Float) : Bool :=
  match datum x with
  | .finite .. => true
  | _ => false

def whole? (x : Float) : Option Int :=
  match datum x with
  | .finite negative m e =>
    let (num, den) := quotient m e
    if num % den = 0 then
      some (if negative then -((num / den : Nat) : Int) else ((num / den : Nat) : Int))
    else none
  | _ => none

end Linework.Binary64
