import Linework.Proofs.Number.Decimals
import Linework.Proofs.Outline.Reading

/-!
# Decimals written out

However a decimal is laid out, what is written is a numeral, and it stands for the same size. No
character of a numeral is a separator or a command letter, so a numeral ends where a separator
follows it.
-/

set_option autoImplicit false

namespace Linework

namespace Outline

section Ends

variable {token rest : List Char} {d : Decimal}

theorem isSign_plain {s : List Char} {negative : Bool} (h : IsSign s negative) :
    ∀ c ∈ s, c ∈ ['+', '-'] := by
  cases h <;> simp

theorem isMantissa_plain {m whole fraction : List Char} (h : IsMantissa m whole fraction) :
    ∀ c ∈ m, c.isDigit ∨ c = '.' := by
  cases h with
  | after hne hf =>
    intro c hc
    rcases List.mem_cons.mp hc with rfl | hc
    · exact .inr rfl
    · exact .inl (hf c hc)
  | around hne hw hf =>
    intro c hc
    rcases List.mem_append.mp hc with hc | hc
    · exact .inl (hw c hc)
    · rcases List.mem_cons.mp hc with rfl | hc
      · exact .inr rfl
      · exact .inl (hf c hc)
  | without hne hw => exact fun c hc => .inl (hw c hc)

theorem isExponent_plain {x : List Char} {power : ℤ} (h : IsExponent x power) :
    ∀ c ∈ x, c.isDigit ∨ c ∈ ['+', '-', 'e', 'E'] := by
  cases h with
  | none => simp
  | some hmark hs hne hp =>
    intro c hc
    rcases List.mem_cons.mp hc with rfl | hc
    · rcases hmark with rfl | rfl <;> simp
    · rcases List.mem_append.mp hc with hc | hc
      · have hsign := isSign_plain hs c hc
        simp only [List.mem_cons] at hsign ⊢
        tauto
      · exact .inl (hp c hc)

theorem IsNumeral.plain (h : IsNumeral token d) :
    ∀ c ∈ token, c.isDigit ∨ c ∈ ['+', '-', '.', 'e', 'E'] := by
  cases h with
  | mk hs hm he =>
    intro c hc
    rcases List.mem_append.mp hc with hc | hc
    · have hsign := isSign_plain hs c hc
      simp only [List.mem_cons] at hsign ⊢
      tauto
    · rcases List.mem_append.mp hc with hc | hc
      · have hmantissa := isMantissa_plain hm c hc
        simp only [List.mem_cons] at hmantissa ⊢
        tauto
      · have hexponent := isExponent_plain he c hc
        simp only [List.mem_cons] at hexponent ⊢
        tauto

theorem not_plain_of_mem {c : Char} (h : c ∈ separators ++ commandLetters) :
    ¬ (c.isDigit ∨ c ∈ ['+', '-', '.', 'e', 'E']) := by
  have hnone : (separators ++ commandLetters).all
      (fun c => !(c.isDigit || ['+', '-', '.', 'e', 'E'].contains c)) = true := by decide
  simpa [not_or] using List.all_eq_true.mp hnone c h

theorem IsNumeral.not_mem_separators (h : IsNumeral token d) : ∀ c ∈ token, c ∉ separators :=
  fun c hc hs => not_plain_of_mem (List.mem_append_left _ hs) (h.plain c hc)

theorem IsNumeral.not_mem_commandLetters (h : IsNumeral token d) :
    ∀ c ∈ token, c ∉ commandLetters :=
  fun c hc hs => not_plain_of_mem (List.mem_append_right _ hs) (h.plain c hc)

/-- A numeral is the longest that a text begins with if nothing or a separator follows it. -/
theorem IsNumeral.isLongest (h : IsNumeral token d) (hrest : ∀ c ∈ rest.head?, c ∈ separators) :
    IsLongest (token ++ rest) token rest d := by
  refine ⟨rfl, h, fun t u e htu ht => ?_⟩
  by_contra hlt
  obtain ⟨more, rfl, hmore⟩ : ∃ more, t = token ++ more ∧ rest = more ++ u := by
    rcases List.append_eq_append_iff.mp htu with ⟨a, ha, hb⟩ | ⟨a, ha, hb⟩
    · exact ⟨a, ha, hb⟩
    · rw [ha, List.length_append] at hlt
      omega
  cases more with
  | nil => simp at hlt
  | cons c more =>
    refine ht.not_mem_separators c (by simp) (hrest c ?_)
    rw [hmore]
    rfl

theorem not_mem_commandLetters_of_separator {c : Char} (h : c ∈ separators) :
    c ∉ commandLetters := by
  have hnone : separators.all (fun c => !commandLetters.contains c) = true := by decide
  simpa using List.all_eq_true.mp hnone c h

theorem IsNumeral.ne_nil (h : IsNumeral token d) : token ≠ [] := by
  cases h with
  | mk hs hm he =>
    obtain ⟨c, hc, -⟩ := hm.head_cases []
    intro hnil
    simp_all

theorem Scans.of_separator {c : Char} (hc : c ∈ separators) {s : List Char} {ds : List Decimal}
    (h : Scans (c :: s) ds) : Scans s ds := by
  cases h with
  | separator _ hs => exact hs
  | @numeral _ token rest d ds hl hs =>
    obtain ⟨b, token, rfl⟩ := List.exists_cons_of_ne_nil hl.numeral.ne_nil
    obtain ⟨rfl, -⟩ := List.cons.inj hl.eq_append
    exact absurd hc (hl.numeral.not_mem_separators c List.mem_cons_self)

theorem scans_separators_append {w s : List Char} {ds : List Decimal}
    (hw : ∀ c ∈ w, c ∈ separators) : Scans (w ++ s) ds ↔ Scans s ds := by
  induction w with
  | nil => exact Iff.rfl
  | cons c w ih =>
    rw [List.forall_mem_cons] at hw
    rw [← ih hw.2]
    exact ⟨.of_separator hw.1, .separator hw.1⟩

theorem scans_separators {w : List Char} (hw : ∀ c ∈ w, c ∈ separators) : Scans w [] := by
  simpa using (scans_separators_append (s := []) hw).mpr .done

theorem Scans.numeral_cons (h : IsNumeral token d) {ds : List Decimal} (hs : Scans rest ds)
    (hrest : ∀ c ∈ rest.head?, c ∈ separators) : Scans (token ++ rest) (d :: ds) :=
  .numeral (h.isLongest hrest) hs

end Ends

section Layout

/-- A text that, with a sign before it or without one, is a numeral of a size. -/
def Spells (text : List Char) (size : ℚ) : Prop :=
  ∀ sign negative, IsSign sign negative →
    ∃ d, IsNumeral (sign ++ text) d ∧ d.negative = negative ∧ d.size = size

variable {text mantissa whole fraction exponent : List Char} {power : ℤ} {size : ℚ}

theorem spells_of_parts (hm : IsMantissa mantissa whole fraction) (he : IsExponent exponent power) :
    Spells (mantissa ++ exponent)
      (Nat.ofDigitChars 10 (whole ++ fraction) 0 * 10 ^ (power - fraction.length)) :=
  fun _ _ hs => ⟨_, .mk hs hm he, rfl, rfl⟩

theorem spells_of_mantissa (hm : IsMantissa mantissa whole fraction) :
    Spells mantissa (Nat.ofDigitChars 10 (whole ++ fraction) 0 * 10 ^ (-fraction.length : ℤ)) := by
  simpa using spells_of_parts hm .none

theorem isDigits_toDigits (n : ℕ) : IsDigits (Nat.toDigits 10 n) :=
  fun _ h => Nat.isDigit_of_mem_toDigits (by omega) le_rfl h

theorem isDigits_zeros (n : ℕ) : IsDigits (List.replicate n '0') := by
  intro c hc
  rw [List.eq_of_mem_replicate hc]
  rfl

@[simp] theorem ofDigitChars_toDigits (n : ℕ) : Nat.ofDigitChars 10 (Nat.toDigits 10 n) 0 = n :=
  Nat.ofDigitChars_toDigits (by omega) le_rfl

theorem ofDigitChars_zeros_append (n : ℕ) (s : List Char) :
    Nat.ofDigitChars 10 (List.replicate n '0' ++ s) 0 = Nat.ofDigitChars 10 s 0 := by
  rw [Nat.ofDigitChars_append, Nat.ofDigitChars_replicate_zero, Nat.mul_zero]

theorem spells_toDigits (n : ℕ) : Spells (Nat.toDigits 10 n) n := by
  simpa using spells_of_mantissa (.without Nat.toDigits_ne_nil (isDigits_toDigits n))

theorem isExponent_padded {sign : List Char} {negative : Bool} (hs : IsSign sign negative)
    (k n : ℕ) : IsExponent ('e' :: (sign ++ (List.replicate k '0' ++ Nat.toDigits 10 n)))
      (if negative then -(n : ℤ) else n) := by
  have hpower : powerOf negative (List.replicate k '0' ++ Nat.toDigits 10 n) =
      if negative then -(n : ℤ) else n := by
    rw [powerOf, ofDigitChars_zeros_append, ofDigitChars_toDigits]
  rw [← hpower]
  exact .some (.inl rfl) hs (by simp [Nat.toDigits_ne_nil])
    ((isDigits_zeros k).append (isDigits_toDigits n))

theorem isExponent_layout (leading : ℤ) :
    IsExponent ('e' :: (if leading < 0 then '-' else '+') ::
      (List.replicate (2 - (Nat.toDigits 10 leading.natAbs).length) '0' ++
        Nat.toDigits 10 leading.natAbs)) leading := by
  generalize 2 - (Nat.toDigits 10 leading.natAbs).length = zeros
  by_cases h : leading < 0
  · simpa [h, abs_of_neg h] using isExponent_padded .minus zeros leading.natAbs
  · simpa [h, abs_of_nonneg (not_lt.mp h)] using isExponent_padded .plus zeros leading.natAbs

theorem spells_scientific {c : Char} {rest : List Char} (hdigits : IsDigits (c :: rest))
    (he : IsExponent exponent (rest.length + power)) :
    Spells (c :: '.' :: rest ++ exponent) (Nat.ofDigitChars 10 (c :: rest) 0 * 10 ^ power) := by
  have hwhole : IsDigits [c] := fun d hd => hdigits d (List.mem_of_mem_take (i := 1) hd)
  have hrest : IsDigits rest := fun d hd => hdigits d (List.mem_cons_of_mem c hd)
  simpa using spells_of_parts (.around (List.cons_ne_nil c []) hwhole hrest) he

section Digits

variable (hne : text ≠ []) (hdigits : IsDigits text)

include hne hdigits

theorem spells_padded (hp : 0 ≤ power) :
    Spells (text ++ List.replicate power.toNat '0' ++ ['.', '0'])
      (Nat.ofDigitChars 10 text 0 * 10 ^ power) := by
  obtain ⟨k, rfl⟩ := Int.eq_ofNat_of_zero_le hp
  have hzero : IsDigits ['0'] := isDigits_zeros 1
  have h := spells_of_mantissa
    (.around (by simp [hne]) (hdigits.append (isDigits_zeros k)) hzero)
  have hvalue : Nat.ofDigitChars 10 (text ++ List.replicate k '0' ++ ['0']) 0 =
      10 * (10 ^ k * Nat.ofDigitChars 10 text 0) := by
    rw [Nat.ofDigitChars_append, Nat.ofDigitChars_append, Nat.ofDigitChars_replicate_zero]
    rfl
  rw [hvalue] at h
  rw [Int.toNat_natCast]
  convert h using 1
  push_cast
  norm_num
  ring

theorem spells_parted (hp : power < 0) (hl : 0 ≤ (text.length : ℤ) - 1 + power) :
    Spells (text.take (((text.length : ℤ) - 1 + power).toNat + 1) ++
      '.' :: text.drop (((text.length : ℤ) - 1 + power).toNat + 1))
      (Nat.ofDigitChars 10 text 0 * 10 ^ power) := by
  generalize hn : ((text.length : ℤ) - 1 + power).toNat + 1 = n
  have htake : text.take n ≠ [] := by simp [hne, ← hn]
  have hdrop : IsDigits (text.drop n) := fun c hc => hdigits c (List.mem_of_mem_drop hc)
  have h := spells_of_mantissa
    (.around htake (fun c hc => hdigits c (List.mem_of_mem_take hc)) hdrop)
  have hpower : (-(text.drop n).length : ℤ) = power := by
    rw [List.length_drop]
    omega
  rwa [List.take_append_drop, hpower] at h

omit hne in
theorem spells_small (hl : (text.length : ℤ) - 1 + power < 0) :
    Spells ('0' :: '.' :: List.replicate (-((text.length : ℤ) - 1 + power) - 1).toNat '0' ++ text)
      (Nat.ofDigitChars 10 text 0 * 10 ^ power) := by
  generalize hn : (-((text.length : ℤ) - 1 + power) - 1).toNat = n
  have h := spells_of_mantissa (.around (List.cons_ne_nil '0' []) (isDigits_zeros 1)
    ((isDigits_zeros n).append hdigits))
  have hpower : (-(List.replicate n '0' ++ text).length : ℤ) = power := by
    rw [List.length_append, List.length_replicate]
    omega
  have hvalue : Nat.ofDigitChars 10 (['0'] ++ (List.replicate n '0' ++ text)) 0 =
      Nat.ofDigitChars 10 text 0 :=
    (ofDigitChars_zeros_append 1 _).trans (ofDigitChars_zeros_append n text)
  rwa [hpower, hvalue] at h

end Digits

/-- However a decimal is laid out, its size is spelled. -/
theorem spells_layout (digits : ℕ) (power : ℤ) :
    Spells (Decimal.layout true digits power) (digits * 10 ^ power) := by
  have hne : Nat.toDigits 10 digits ≠ [] := Nat.toDigits_ne_nil
  have hdigits := isDigits_toDigits digits
  have hvalue := ofDigitChars_toDigits digits
  simp only [Decimal.layout, if_true]
  split
  · next hzero =>
    have h := spells_of_mantissa
      (.around (List.cons_ne_nil '0' []) (isDigits_zeros 1) (isDigits_zeros 1))
    simpa [hzero, Nat.ofDigitChars_cons] using h
  generalize Nat.toDigits 10 digits = text at hne hdigits hvalue ⊢
  rw [← hvalue]
  split
  · have he := isExponent_layout (text.length - 1 + power)
    rcases text with _ | ⟨c, _ | ⟨b, rest⟩⟩
    · exact absurd rfl hne
    · simpa using spells_of_parts (.without hne hdigits) he
    · have hlength : ((c :: b :: rest).length : ℤ) - 1 + power = (b :: rest).length + power := by
        simp
      simpa using spells_scientific hdigits (hlength ▸ he)
  · next hrange =>
    split
    · next hp => exact spells_padded hne hdigits hp
    · next hp =>
      split
      · next hl => exact spells_parted hne hdigits (not_le.mp hp) hl
      · next hl => exact spells_small hdigits (not_le.mp hl)

end Layout

end Outline

end Linework
