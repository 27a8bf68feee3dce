import Linework.Number.Decimal

/-!
# Numerals

A numeral is an optional sign, ASCII digits with at most one point among or around them, and an
optional exponent. `numeral?` takes the longest one that a text begins with and returns what
follows it, which is shorter than the text.
-/

set_option autoImplicit false

namespace Linework.Outline

def digits (s : List Char) : List Char × List Char :=
  (s.takeWhile Char.isDigit, s.dropWhile Char.isDigit)

def sign : List Char → Bool × List Char
  | '-' :: rest => (true, rest)
  | '+' :: rest => (false, rest)
  | s => (false, s)

def mantissa? : List Char → Option (List Char × List Char × List Char)
  | '.' :: s =>
    let (fraction, rest) := digits s
    if fraction.isEmpty then none else some ([], fraction, rest)
  | s =>
    let (whole, rest) := digits s
    if whole.isEmpty then none
    else
      match rest with
      | '.' :: t =>
        let (fraction, rest) := digits t
        some (whole, fraction, rest)
      | rest => some (whole, [], rest)

/-- The exponent, zero if the text does not begin with a complete one, and the rest. -/
def exponent : List Char → Int × List Char
  | [] => (0, [])
  | c :: s =>
    if c = 'e' ∨ c = 'E' then
      let (negative, t) := sign s
      let (power, rest) := digits t
      if power.isEmpty then (0, c :: s)
      else
        let n := Nat.ofDigitChars 10 power 0
        (if negative then -(n : Int) else n, rest)
    else (0, c :: s)

def numeral? (s : List Char) : Option (Decimal × List Char) :=
  let (negative, t) := sign s
  match mantissa? t with
  | none => none
  | some (whole, fraction, rest) =>
    let (power, rest) := exponent rest
    some (⟨negative, Nat.ofDigitChars 10 (whole ++ fraction) 0, power - fraction.length⟩, rest)

theorem length_digits (s : List Char) :
    (digits s).1.length + (digits s).2.length = s.length := by
  rw [← List.length_append]
  exact congrArg List.length List.takeWhile_append_dropWhile

theorem length_sign_le (s : List Char) : (sign s).2.length ≤ s.length := by
  unfold sign
  split <;> simp

theorem length_exponent_le (s : List Char) : (exponent s).2.length ≤ s.length := by
  cases s with
  | nil => simp [exponent]
  | cons c s =>
    have h := length_digits (sign s).2
    have k := length_sign_le s
    simp only [exponent]
    split
    · split
      · simp
      · simp only [List.length_cons]; omega
    · simp

theorem length_mantissa_lt {s whole fraction rest : List Char}
    (h : mantissa? s = some (whole, fraction, rest)) : rest.length < s.length := by
  unfold mantissa? at h
  split at h
  · rename_i t
    have k := length_digits t
    simp only [] at h
    split at h
    · simp at h
    · simp only [Option.some.injEq, Prod.mk.injEq] at h
      simp only [List.length_cons, ← h.2.2]
      omega
  · have k := length_digits s
    simp only [] at h
    split at h
    · simp at h
    · rename_i hw
      have hp : 0 < (digits s).1.length := by
        rw [List.length_pos_iff]
        simpa using hw
      split at h
      · rename_i u hu
        have ku := length_digits u
        rw [hu] at k
        simp only [Option.some.injEq, Prod.mk.injEq] at h
        simp only [List.length_cons] at k
        rw [← h.2.2]
        omega
      · simp only [Option.some.injEq, Prod.mk.injEq] at h
        rw [← h.2.2]
        omega

theorem length_numeral_lt {s rest : List Char} {d : Decimal}
    (h : numeral? s = some (d, rest)) : rest.length < s.length := by
  unfold numeral? at h
  simp only [] at h
  split at h
  · simp at h
  · rename_i w f r hm
    have h1 := length_mantissa_lt hm
    have h2 := length_exponent_le r
    have h3 := length_sign_le s
    simp only [Option.some.injEq, Prod.mk.injEq] at h
    rw [← h.2]
    omega

end Linework.Outline
