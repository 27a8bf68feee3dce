import Linework.Number.Binary64

/-!
# Elementary functions of doubles

Sine, cosine, tangent, arc cosine, the angle of a vector, its length and the floored remainder,
each computed in whole numbers with some two hundred bits to spare and then rounded once to the
nearest double. A fixed-point number with `p` places stands for its value times `2 ^ p`.
-/

set_option autoImplicit false

namespace Linework.Elementary

open Binary64

def squareRootWith : Nat → Nat → Nat
  | 0, _ => 0
  | fuel + 1, n =>
    if n = 0 then 0
    else
      let r := 2 * squareRootWith fuel (n / 4)
      if (r + 1) * (r + 1) ≤ n then r + 1 else r

def squareRoot (n : Nat) : Nat := squareRootWith (n.log2 / 2 + 1) n

/-- The terms of an alternating series from the `k`-th on, each the one before multiplied by
`num / den` and weighted by its index. The series ends with the first term that is zero. -/
def alternating (weight : Nat → Nat) (ratio : Nat → Nat × Nat) : Nat → Nat → Nat → Int
  | 0, _, _ => 0
  | fuel + 1, k, term =>
    if term = 0 then 0
    else
      let (num, den) := ratio k
      (term / weight k : Nat) - alternating weight ratio fuel (k + 1) (term * num / den)

def arctanSeries (p t : Nat) : Int :=
  alternating (fun k => 2 * k + 1) (fun _ => (t * t, 2 ^ (2 * p))) (p + 1) 0 t

def halfTurn (p : Nat) : Int :=
  let q := p + 32
  let arctanInverse (n : Nat) : Int :=
    alternating (fun k => 2 * k + 1) (fun _ => (1, n * n)) (q + 1) 0 (2 ^ q / n)
  -- sixteen times the angle with tangent 1/5 less four times that with tangent 1/239
  (16 * arctanInverse 5 - 4 * arctanInverse 239) / (2 ^ 32 : Nat)

def sineCosine (p : Nat) (angle : Int) : Int × Int :=
  let t := angle.natAbs
  let square := t * t
  let unit := 2 ^ (2 * p)
  let sine := alternating (fun _ => 1)
    (fun k => (square, unit * ((2 * k + 2) * (2 * k + 3)))) (p + 1) 0 t
  let cosine := alternating (fun _ => 1)
    (fun k => (square, unit * ((2 * k + 1) * (2 * k + 2)))) (p + 1) 0 (2 ^ p)
  (if angle < 0 then -sine else sine, cosine)

def leadingBit (significand : Nat) (exponent : Int) : Int := exponent + significand.log2

/-- Sine and cosine of a finite double in fixed point, with the number of places. A small angle
gets as many more places as it is small, so that its sine keeps all its digits; a large one gets
as many more for the quarter turns that are taken off. -/
def circular (significand : Nat) (exponent : Int) : Nat × Int × Int :=
  let size := leadingBit significand exponent
  let p := 256 + size.natAbs
  let (num, den) := Binary64.quotient significand exponent
  let angle : Int := (num * 2 ^ p / den : Nat)
  if size < -1 then (p, sineCosine p angle)
  else
    let quarter := halfTurn p / 2
    let turns := (angle + quarter / 2) / quarter
    let cut : Nat := 2 ^ (p - 256)
    let (sine, cosine) := sineCosine 256 ((angle - turns * quarter) / cut)
    (256,
      if turns % 4 = 0 then (sine, cosine)
      else if turns % 4 = 1 then (cosine, -sine)
      else if turns % 4 = 2 then (-sine, -cosine)
      else (-cosine, sine))

def sin (x : Float) : Float :=
  match datum x with
  | .finite negative m e =>
    if m = 0 then x
    else
      let (p, sine, _) := circular m e
      nearestInt (if negative then -sine else sine) (2 ^ p)
  | _ => notANumber

def cos (x : Float) : Float :=
  match datum x with
  | .finite _ m e =>
    let (p, _, cosine) := circular m e
    nearestInt cosine (2 ^ p)
  | _ => notANumber

def tan (x : Float) : Float :=
  match datum x with
  | .finite negative m e =>
    if m = 0 then x
    else
      let (_, sine, cosine) := circular m e
      nearest (xor negative (xor (decide (sine < 0)) (decide (cosine < 0))))
        sine.natAbs cosine.natAbs
  | _ => notANumber

/-- The angle, in fixed point and at most an eighth of a turn, of the vector `(across, up)` with
`up ≤ across`. The tangent is brought down by halving the angle four times. -/
def lowAngle (p up across : Nat) : Int :=
  let halve (t : Nat) : Nat := t * 2 ^ p / (2 ^ p + squareRoot (2 ^ (2 * p) + t * t))
  16 * arctanSeries p (halve (halve (halve (halve (up * 2 ^ p / across)))))

def vectorAngle (left : Bool) (across up : Nat) : Nat × Int :=
  if up = 0 then (256, if left then halfTurn 256 else 0)
  else if up ≤ across then
    let p := 288 + (across.log2 - up.log2)
    let angle := lowAngle p up across
    (p, if left then halfTurn p - angle else angle)
  else
    let p := 288
    let angle := if across = 0 then 0 else lowAngle p across up
    (p, if left then halfTurn p / 2 + angle else halfTurn p / 2 - angle)

def atan2 (y x : Float) : Float :=
  let angle (down left : Bool) (across up : Nat) : Float :=
    let (p, a) := vectorAngle left across up
    nearest down a.toNat (2 ^ p)
  -- A zero keeps its sign, and an infinite coordinate counts as far larger than a finite one.
  match datum y, datum x with
  | .nan, _ => notANumber
  | _, .nan => notANumber
  | .infinite down, .infinite left => angle down left 1 1
  | .infinite down, .finite left _ _ => angle down left 0 1
  | .finite down _ _, .infinite left => angle down left 1 0
  | .finite down m e, .finite left n f =>
    let low := min e f
    angle down left (n * 2 ^ (f - low).toNat) (m * 2 ^ (e - low).toNat)

def acos (x : Float) : Float :=
  match datum x with
  | .finite left m e =>
    let (num, den) := Binary64.quotient m e
    if den < num then notANumber
    else
      -- the vector from the centre of the unit circle to the point above `x`
      let (p, a) := vectorAngle left (num * 2 ^ 256)
        (squareRoot ((den * den - num * num) * 2 ^ 512))
      nearest false a.toNat (2 ^ p)
  | _ => notANumber

def hypot (x y : Float) : Float :=
  match datum x, datum y with
  | .infinite _, _ => infinity false
  | _, .infinite _ => infinity false
  | .finite _ m e, .finite _ n f =>
    let low := min e f
    let a := m * 2 ^ (e - low).toNat
    let b := n * 2 ^ (f - low).toNat
    let square := (a * a + b * b) * 2 ^ 128
    let root := squareRoot square
    -- The half added to an inexact root stands for what was cut off.
    let num := 2 * root + (if root * root = square then 0 else 1)
    nearest false (num * 2 ^ low.toNat) (2 ^ (65 + (-low).toNat))
  | _, _ => notANumber

def floorMod (x y : Float) : Float :=
  match datum x, datum y with
  | .finite s m e, .finite t n f =>
    let low := min e f
    let a : Int := (m * 2 ^ (e - low).toNat : Nat)
    let b : Int := (n * 2 ^ (f - low).toNat : Nat)
    let r := Int.fmod (if s then -a else a) (if t then -b else b)
    -- The exact remainder is rounded, which can give `y` itself.
    if n = 0 then notANumber
    else if r = 0 then nearest t 0 1
    else nearestInt (r * (2 ^ low.toNat : Nat)) (2 ^ (-low).toNat)
  | .finite s m _, .infinite t => if m = 0 ∨ s = t then x else infinity t
  | _, _ => notANumber

end Linework.Elementary
