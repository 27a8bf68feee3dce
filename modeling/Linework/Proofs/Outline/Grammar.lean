import Linework.Outline.Numeral
import Mathlib.Data.List.TakeWhile

/-!
# The grammar of numerals

The grammar says how a numeral is written, and nothing of how it is read: a sign or none, digits
with or without a point, an exponent or none. Reading finds a numeral wherever a text begins with
one, and of those that it begins with it takes the longest.
-/

set_option autoImplicit false

namespace Linework.Outline

def IsDigits (s : List Char) : Prop := ∀ c ∈ s, c.isDigit

inductive IsSign : List Char → Bool → Prop
  | none : IsSign [] false
  | plus : IsSign ['+'] false
  | minus : IsSign ['-'] true

/-- Digits after a point, around a point or without one, with those before and after it. -/
inductive IsMantissa : List Char → List Char → List Char → Prop
  | after {fraction : List Char} (hne : fraction ≠ []) (hf : IsDigits fraction) :
      IsMantissa ('.' :: fraction) [] fraction
  | around {whole fraction : List Char} (hne : whole ≠ []) (hw : IsDigits whole)
      (hf : IsDigits fraction) : IsMantissa (whole ++ '.' :: fraction) whole fraction
  | without {whole : List Char} (hne : whole ≠ []) (hw : IsDigits whole) :
      IsMantissa whole whole []

def powerOf (negative : Bool) (power : List Char) : Int :=
  if negative then -(Nat.ofDigitChars 10 power 0 : Int) else Nat.ofDigitChars 10 power 0

inductive IsExponent : List Char → Int → Prop
  | none : IsExponent [] 0
  | some {c : Char} {sign power : List Char} {negative : Bool} (hc : c = 'e' ∨ c = 'E')
      (hs : IsSign sign negative) (hne : power ≠ []) (hp : IsDigits power) :
      IsExponent (c :: (sign ++ power)) (powerOf negative power)

/-- A numeral and the decimal that it writes. -/
inductive IsNumeral : List Char → Decimal → Prop
  | mk {sign mantissa whole fraction exponent : List Char} {negative : Bool} {power : Int}
      (hs : IsSign sign negative) (hm : IsMantissa mantissa whole fraction)
      (he : IsExponent exponent power) :
      IsNumeral (sign ++ (mantissa ++ exponent))
        ⟨negative, Nat.ofDigitChars 10 (whole ++ fraction) 0, power - fraction.length⟩

/-- The longest numeral that a text begins with, and what follows it. -/
structure IsLongest (s token rest : List Char) (d : Decimal) : Prop where
  eq_append : s = token ++ rest
  numeral : IsNumeral token d
  longest : ∀ t u e, s = t ++ u → IsNumeral t e → t.length ≤ token.length

section Digits

variable {s w : List Char}

theorem IsDigits.append {v : List Char} (hw : IsDigits w) (hv : IsDigits v) :
    IsDigits (w ++ v) := by
  intro c hc
  rcases List.mem_append.mp hc with h | h
  · exact hw c h
  · exact hv c h

theorem digits_append_eq (s : List Char) : (digits s).1 ++ (digits s).2 = s :=
  List.takeWhile_append_dropWhile

theorem isDigits_digits (s : List Char) : IsDigits (digits s).1 := fun _ h =>
  List.mem_takeWhile_imp h

theorem digits_of_isDigits (h : IsDigits w) (s : List Char) :
    digits (w ++ s) = (w ++ (digits s).1, (digits s).2) := by
  rw [digits, digits, List.takeWhile_append_of_pos h, List.dropWhile_append_of_pos h]

theorem digits_cons_of_not {c : Char} (h : c.isDigit = false) (s : List Char) :
    digits (c :: s) = ([], c :: s) := by
  simp [digits, h]

theorem isDigit_of_head_digits {c : Char} (h : c ∈ (digits s).1.head?) : c.isDigit :=
  isDigits_digits s c (List.mem_of_mem_head? h)

end Digits

section Sign

variable {s t σ : List Char} {negative : Bool}

theorem exists_isSign (s : List Char) :
    ∃ σ, s = σ ++ (sign s).2 ∧ IsSign σ (sign s).1 := by
  rw [sign.eq_def]
  split
  · exact ⟨['-'], rfl, .minus⟩
  · exact ⟨['+'], rfl, .plus⟩
  · exact ⟨[], rfl, .none⟩

theorem sign_of_isSign {c : Char} (h : IsSign σ negative) (ht : t.head? = some c)
    (hc : c.isDigit ∨ c = '.') : sign (σ ++ t) = (negative, t) := by
  obtain ⟨t, rfl⟩ := List.head?_eq_some_iff.mp ht
  cases h with
  | plus | minus => rfl
  | none =>
    have hp : c ≠ '+' := by
      rintro rfl
      revert hc
      decide
    have hm : c ≠ '-' := by
      rintro rfl
      revert hc
      decide
    simp [sign, hp, hm]

end Sign

section Mantissa

variable {s m whole fraction rest : List Char}

theorem IsMantissa.head_cases (h : IsMantissa m whole fraction) (s : List Char) :
    ∃ c, (m ++ s).head? = some c ∧ (c.isDigit ∨ c = '.') := by
  cases h with
  | after hne hf => exact ⟨'.', rfl, .inr rfl⟩
  | around hne hw hf =>
    obtain ⟨c, w, rfl⟩ := List.exists_cons_of_ne_nil hne
    exact ⟨c, rfl, .inl (hw c List.mem_cons_self)⟩
  | without hne hw =>
    obtain ⟨c, w, rfl⟩ := List.exists_cons_of_ne_nil hne
    exact ⟨c, rfl, .inl (hw c List.mem_cons_self)⟩

theorem mantissa?_point (s : List Char) (h : (digits s).1 ≠ []) :
    mantissa? ('.' :: s) = some ([], (digits s).1, (digits s).2) := by
  simp [mantissa?, h]

theorem head_ne_point {w r : List Char} (h : digits s = (w, r)) (hw : w ≠ []) :
    s.head? ≠ some '.' := by
  intro hs
  obtain ⟨t, rfl⟩ := List.head?_eq_some_iff.mp hs
  rw [digits_cons_of_not rfl] at h
  exact hw (Prod.mk.inj h).1.symm

theorem mantissa?_whole {w r : List Char} (h : digits s = (w, r)) (hw : w ≠ [])
    (hr : r.head? ≠ some '.') : mantissa? s = some (w, [], r) := by
  rw [mantissa?.eq_def]
  split
  · exact absurd rfl (head_ne_point h hw)
  · simp only [h, List.isEmpty_eq_false_iff.mpr hw, Bool.false_eq_true, if_false]
    split
    · exact absurd rfl hr
    · rfl

theorem mantissa?_parted {w t : List Char} (h : digits s = (w, '.' :: t)) (hw : w ≠ []) :
    mantissa? s = some (w, (digits t).1, (digits t).2) := by
  rw [mantissa?.eq_def]
  split
  · exact absurd rfl (head_ne_point h hw)
  · simp only [h, List.isEmpty_eq_false_iff.mpr hw, Bool.false_eq_true, if_false]

theorem mantissa?_none {r : List Char} (h : digits s = ([], r)) (hs : s.head? ≠ some '.') :
    mantissa? s = none := by
  rw [mantissa?.eq_def]
  split
  · exact absurd rfl hs
  · simp [h]

theorem exists_isMantissa (h : mantissa? s = some (whole, fraction, rest)) :
    ∃ m, s = m ++ rest ∧ IsMantissa m whole fraction := by
  by_cases hp : s.head? = some '.'
  · obtain ⟨t, rfl⟩ := List.head?_eq_some_iff.mp hp
    by_cases ht : (digits t).1 = []
    · simp [mantissa?, ht] at h
    · rw [mantissa?_point t ht] at h
      cases h
      exact ⟨'.' :: (digits t).1, by rw [List.cons_append, digits_append_eq],
        .after ht (isDigits_digits t)⟩
  · rcases hd : digits s with ⟨w, r⟩
    have hs : w ++ r = s := by simpa [hd] using digits_append_eq s
    have hw : IsDigits w := by simpa [hd] using isDigits_digits s
    by_cases hne : w = []
    · subst hne
      rw [mantissa?_none hd hp] at h
      cases h
    by_cases hr : r.head? = some '.'
    · obtain ⟨t, rfl⟩ := List.head?_eq_some_iff.mp hr
      rw [mantissa?_parted hd hne] at h
      cases h
      refine ⟨whole ++ '.' :: (digits t).1, ?_, .around hne hw (isDigits_digits t)⟩
      rw [List.append_assoc, List.cons_append, digits_append_eq, hs]
    · rw [mantissa?_whole hd hne hr] at h
      cases h
      exact ⟨whole, hs.symm, .without hne hw⟩

theorem mantissa?_append (h : IsMantissa m whole fraction) (s : List Char) :
    ∃ more rest w f, mantissa? (m ++ s) = some (w, f, rest) ∧ s = more ++ rest ∧
      (more = [] → w = whole ∧ f = fraction) ∧ ∀ c ∈ more.head?, c.isDigit ∨ c = '.' := by
  have hs := digits_append_eq s
  cases h with
  | after hne hf =>
    refine ⟨(digits s).1, (digits s).2, [], fraction ++ (digits s).1, ?_, hs.symm, ?_,
      fun c hc => .inl (isDigit_of_head_digits hc)⟩
    · rw [List.cons_append, mantissa?_point _ (by simp [digits_of_isDigits hf, hne]),
        digits_of_isDigits hf]
    · rintro hm
      simp [hm]
  | around hne hw hf =>
    refine ⟨(digits s).1, (digits s).2, whole, fraction ++ (digits s).1, ?_, hs.symm, ?_,
      fun c hc => .inl (isDigit_of_head_digits hc)⟩
    · have hd : digits (whole ++ '.' :: (fraction ++ s)) = (whole, '.' :: (fraction ++ s)) := by
        rw [digits_of_isDigits hw, digits_cons_of_not rfl, List.append_nil]
      rw [List.append_assoc, List.cons_append, mantissa?_parted hd hne, digits_of_isDigits hf]
    · rintro hm
      simp [hm]
  | without hne hw =>
    have hd : digits (m ++ s) = (m ++ (digits s).1, (digits s).2) := digits_of_isDigits hw s
    have hne' : m ++ (digits s).1 ≠ [] := by simp [hne]
    by_cases hp : (digits s).2.head? = some '.'
    · obtain ⟨t, ht⟩ := List.head?_eq_some_iff.mp hp
      refine ⟨(digits s).1 ++ '.' :: (digits t).1, (digits t).2, m ++ (digits s).1,
        (digits t).1, ?_, ?_, by simp, fun c hc => ?_⟩
      · exact mantissa?_parted (by rw [hd, ht]) hne'
      · rw [List.append_assoc, List.cons_append, digits_append_eq, ← ht, hs]
      · cases hd : (digits s).1 with
        | nil =>
          rw [hd] at hc
          exact .inr (Option.some.inj hc).symm
        | cons d ds =>
          rw [hd] at hc
          exact .inl (isDigit_of_head_digits (s := s) (by rw [hd]; exact hc))
    · refine ⟨(digits s).1, (digits s).2, m ++ (digits s).1, [], mantissa?_whole hd hne' hp,
        hs.symm, ?_, fun c hc => .inl (isDigit_of_head_digits hc)⟩
      rintro hm
      simp [hm]

end Mantissa

section Exponent

variable {s x : List Char} {power : Int}

theorem IsExponent.eq_zero (h : IsExponent [] power) : power = 0 := by
  cases h
  rfl

theorem exponent_of_not {c : Char} (h : ¬ (c = 'e' ∨ c = 'E')) (s : List Char) :
    exponent (c :: s) = (0, c :: s) := by
  simp [exponent, h]

theorem exponent_of_no_digits {c : Char} (h : (digits (sign s).2).1 = []) :
    exponent (c :: s) = (0, c :: s) := by
  simp [exponent, h]

theorem exponent_of_digits {c : Char} (hc : c = 'e' ∨ c = 'E')
    (hne : (digits (sign s).2).1 ≠ []) :
    exponent (c :: s) =
      (powerOf (sign s).1 (digits (sign s).2).1, (digits (sign s).2).2) := by
  simp [exponent, powerOf, hc, hne]

theorem exists_isExponent (s : List Char) :
    ∃ x, s = x ++ (exponent s).2 ∧ IsExponent x (exponent s).1 := by
  have hnone (h : exponent s = (0, s)) :
      ∃ x, s = x ++ (exponent s).2 ∧ IsExponent x (exponent s).1 := by
    rw [h]
    exact ⟨[], rfl, .none⟩
  cases s with
  | nil => exact hnone rfl
  | cons c s =>
    by_cases hc : c = 'e' ∨ c = 'E'
    · obtain ⟨σ, hσ, hsign⟩ := exists_isSign s
      by_cases hd : (digits (sign s).2).1 = []
      · exact hnone (exponent_of_no_digits hd)
      · rw [exponent_of_digits hc hd]
        refine ⟨c :: (σ ++ (digits (sign s).2).1), ?_, .some hc hsign hd (isDigits_digits _)⟩
        rw [List.cons_append, List.append_assoc, digits_append_eq, ← hσ]
    · exact hnone (exponent_of_not hc s)

theorem exponent_append (h : IsExponent x power) (s : List Char) :
    ∃ more rest p, exponent (x ++ s) = (p, rest) ∧ s = more ++ rest ∧
      (more = [] → p = power) := by
  cases h with
  | none =>
    obtain ⟨y, hy, he⟩ := exists_isExponent s
    refine ⟨y, (exponent s).2, (exponent s).1, rfl, hy, ?_⟩
    rintro rfl
    exact he.eq_zero
  | @some c σ p negative hc hs hne hp =>
    have hd : digits (p ++ s) = (p ++ (digits s).1, (digits s).2) := digits_of_isDigits hp s
    have hsign : sign (σ ++ (p ++ s)) = (negative, p ++ s) := by
      obtain ⟨d, p, rfl⟩ := List.exists_cons_of_ne_nil hne
      exact sign_of_isSign hs rfl (.inl (hp d List.mem_cons_self))
    refine ⟨(digits s).1, (digits s).2, powerOf negative (p ++ (digits s).1), ?_,
      (digits_append_eq s).symm, ?_⟩
    · rw [List.cons_append, List.append_assoc, exponent_of_digits hc (by simp [hsign, hd, hne]),
        hsign, hd]
    · rintro hm
      simp [hm]

end Exponent

section Numeral

variable {s token rest : List Char} {d : Decimal}

theorem exists_isNumeral (h : numeral? s = some (d, rest)) :
    ∃ token, s = token ++ rest ∧ IsNumeral token d := by
  obtain ⟨σ, hσ, hs⟩ := exists_isSign s
  rw [numeral?] at h
  simp only [] at h
  cases hm : mantissa? (sign s).2 with
  | none => simp [hm] at h
  | some found =>
    obtain ⟨whole, fraction, r⟩ := found
    simp only [hm, Option.some.injEq, Prod.mk.injEq] at h
    obtain ⟨rfl, rfl⟩ := h
    obtain ⟨m, hmr, hmantissa⟩ := exists_isMantissa hm
    obtain ⟨x, hx, hexponent⟩ := exists_isExponent r
    refine ⟨σ ++ (m ++ x), ?_, .mk hs hmantissa hexponent⟩
    rw [List.append_assoc, List.append_assoc, ← hx, ← hmr, ← hσ]

theorem numeral?_of_mantissa {σ t : List Char} {negative : Bool} {w f r : List Char}
    {c : Char} (hs : IsSign σ negative) (ht : t.head? = some c) (hc : c.isDigit ∨ c = '.')
    (hm : mantissa? t = some (w, f, r)) :
    numeral? (σ ++ t) = some (⟨negative, Nat.ofDigitChars 10 (w ++ f) 0,
      (exponent r).1 - f.length⟩, (exponent r).2) := by
  rw [numeral?, sign_of_isSign hs ht hc]
  simp only [hm]

/-- A text that begins with a numeral is read as one that is at least as long. -/
theorem numeral?_append (h : IsNumeral token d) (s : List Char) :
    ∃ more rest e, numeral? (token ++ s) = some (e, rest) ∧ s = more ++ rest ∧
      (more = [] → e = d) := by
  obtain ⟨hs, hm, he⟩ := h
  rename_i σ m whole fraction x negative power
  obtain ⟨c, hc, hdigit⟩ := hm.head_cases (x ++ s)
  obtain ⟨more, rest, w, f, hread, happ, hsame, hhead⟩ := mantissa?_append hm (x ++ s)
  rw [List.append_assoc, List.append_assoc, numeral?_of_mantissa hs hc hdigit hread]
  cases more with
  | nil =>
    obtain ⟨rfl, rfl⟩ := hsame rfl
    obtain ⟨more, r, p, hp, hr, hpower⟩ := exponent_append he s
    rw [List.nil_append] at happ
    rw [← happ, hp]
    exact ⟨more, r, _, rfl, hr, fun h => by rw [hpower h]⟩
  | cons k more =>
    -- A longer mantissa leaves no room for the exponent of the token.
    have hx : x = [] := by
      cases he with
      | none => rfl
      | some hmark _ _ _ =>
        have hk := hhead k rfl
        rw [← (List.cons.inj happ).1] at hk
        rcases hmark with rfl | rfl <;> exact absurd hk (by decide)
    subst hx
    obtain ⟨y, hy, -⟩ := exists_isExponent rest
    exact ⟨k :: more ++ y, (exponent rest).2, _, rfl, by rw [List.append_assoc, ← hy]; exact happ,
      by simp⟩

theorem numeral?_eq_some_iff :
    numeral? s = some (d, rest) ↔ ∃ token, IsLongest s token rest d := by
  constructor
  · intro h
    obtain ⟨token, rfl, hd⟩ := exists_isNumeral h
    refine ⟨token, rfl, hd, fun t u e htu ht => ?_⟩
    obtain ⟨more, r, e', hr, hu, -⟩ := numeral?_append ht u
    rw [htu, hr] at h
    cases h
    have hlen := congrArg List.length htu
    rw [hu, List.length_append, List.length_append, List.length_append] at hlen
    omega
  · rintro ⟨token, rfl, hd, hlongest⟩
    obtain ⟨more, r, e, hr, rfl, he⟩ := numeral?_append hd rest
    obtain ⟨t, ht, hn⟩ := exists_isNumeral hr
    have hle := hlongest t r e ht hn
    have hlen := congrArg List.length ht
    rw [List.length_append, List.length_append, List.length_append] at hlen
    have hmore : more = [] := List.length_eq_zero_iff.mp (by omega)
    rw [hr, he hmore, hmore, List.nil_append]

-- Without digits after its mark there is no exponent.
example : numeral? ['1', '.', '5', 'e', '+', 'x'] = some (⟨false, 15, -1⟩, ['e', '+', 'x']) := by
  decide

end Numeral

end Linework.Outline
