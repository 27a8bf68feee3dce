import Linework.Text.Digit
import Linework.Text.Quoted
import Mathlib.Tactic.NormNum

/-!
# Digits in base sixteen

A number that is written in base sixteen is read back, whether its digits are padded or have a
sign before them. What is read from digits is bounded by their number, so a part of the digits of
a number, if these do not begin with zeros, is never read as the number.
-/

set_option autoImplicit false

namespace Linework.Text

def upperDigits : List Char :=
  ['0', '1', '2', '3', '4', '5', '6', '7', '8', '9', 'A', 'B', 'C', 'D', 'E', 'F']

/-- The number that digits stand for after others that stand for `n`. -/
def hexNumber (n : ℕ) (s : List Char) : ℕ :=
  s.foldl (fun n c => 16 * n + (hexValue? c).getD 0) n

section Digits

variable {c : Char} {s t : List Char} {n : ℕ}

theorem upper_digitChar {d : ℕ} (hd : d < 16) :
    (Nat.digitChar d).toUpper ∈ upperDigits ∧ hexValue? (Nat.digitChar d).toUpper = some d := by
  revert d
  decide

theorem hexValue?_upper (h : c ∈ upperDigits) : ∃ d, d < 16 ∧ hexValue? c = some d := by
  have hall : upperDigits.all (fun c => (hexValue? c).any (· < 16)) = true := by decide
  have hd := List.all_eq_true.mp hall c h
  cases hv : hexValue? c with
  | none => simp [hv] at hd
  | some d => exact ⟨d, by simpa [hv] using hd, rfl⟩

theorem isWhite_upper (h : c ∈ upperDigits) : isWhite c = false := by
  have hall : upperDigits.all (fun c => !isWhite c) = true := by decide
  simpa using List.all_eq_true.mp hall c h

theorem ne_of_upper (h : c ∈ upperDigits) : c ∉ ['_', '-', '+', 'x', 'X', '#'] := by
  have hall : upperDigits.all (fun c => !(['_', '-', '+', 'x', 'X', '#'].contains c)) = true := by
    decide
  simpa using List.all_eq_true.mp hall c h

theorem isHexDigit_upper (h : c ∈ upperDigits) : isHexDigit c := by
  have hall : upperDigits.all isHexDigit = true := by decide
  exact List.all_eq_true.mp hall c h

theorem hexNumber_append (n : ℕ) (s t : List Char) :
    hexNumber n (s ++ t) = hexNumber (hexNumber n s) t := List.foldl_append

theorem hexNumber_lt (hs : ∀ c ∈ s, c ∈ upperDigits) :
    hexNumber n s < (n + 1) * 16 ^ s.length := by
  induction s generalizing n with
  | nil => simp [hexNumber]
  | cons c s ih =>
    obtain ⟨hc, hs⟩ := List.forall_mem_cons.mp hs
    obtain ⟨d, hd, hv⟩ := hexValue?_upper hc
    have hstep : hexNumber n (c :: s) = hexNumber (16 * n + d) s := by simp [hexNumber, hv]
    rw [hstep, List.length_cons, Nat.pow_succ']
    calc hexNumber (16 * n + d) s < (16 * n + d + 1) * 16 ^ s.length := ih hs
      _ ≤ (n + 1) * 16 * 16 ^ s.length := Nat.mul_le_mul_right _ (by omega)
      _ = (n + 1) * (16 * 16 ^ s.length) := Nat.mul_assoc _ _ _

theorem hexDigits?_upper (hs : ∀ c ∈ s, c ∈ upperDigits) (due : Bool) (n : ℕ) :
    hexDigits? due n s = if due ∧ s = [] then none else some (hexNumber n s) := by
  induction s generalizing due n with
  | nil => cases due <;> rfl
  | cons c s ih =>
    obtain ⟨hc, hs⟩ := List.forall_mem_cons.mp hs
    obtain ⟨d, hd, hv⟩ := hexValue?_upper hc
    have hne : c ≠ '_' := by
      rintro rfl
      exact ne_of_upper hc (by simp)
    rw [hexDigits?, if_neg hne, hv]
    simp [ih hs, hexNumber, hv]

theorem hexBody?_upper (hne : s ≠ []) (hs : ∀ c ∈ s, c ∈ upperDigits) :
    hexBody? s = some (hexNumber 0 s) := by
  have hread : hexDigits? true 0 s = some (hexNumber 0 s) := by
    rw [hexDigits?_upper hs, if_neg (by simp [hne])]
  rw [hexBody?.eq_def]
  split
  · next z x rest =>
    have hx := ne_of_upper (hs x (by simp))
    rw [if_neg, hread]
    rintro ⟨-, rfl | rfl⟩ <;> simp at hx
  · exact hread

theorem trim_eq_self {p : Char → Bool} (hs : ∀ c ∈ s, p c = false) : trim p s = s := by
  have hdrop : ∀ t : List Char, (∀ c ∈ t, p c = false) → t.dropWhile p = t := by
    intro t ht
    cases t with
    | nil => rfl
    | cons c t => simp [ht c List.mem_cons_self]
  rw [trim, hdrop s hs, hdrop s.reverse (by simpa using hs), List.reverse_reverse]

theorem hexInt?_upper (hne : s ≠ []) (hs : ∀ c ∈ s, c ∈ upperDigits) :
    hexInt? s = some (hexNumber 0 s : ℤ) := by
  have hread := hexBody?_upper hne hs
  rw [hexInt?, trim_eq_self fun c hc => isWhite_upper (hs c hc)]
  split
  · exact absurd (ne_of_upper (hs '-' List.mem_cons_self)) (by simp)
  · exact absurd (ne_of_upper (hs '+' List.mem_cons_self)) (by simp)
  · rw [hread]
    rfl

theorem hexInt?_minus (hne : s ≠ []) (hs : ∀ c ∈ s, c ∈ upperDigits) :
    hexInt? ('-' :: s) = some (-(hexNumber 0 s : ℤ)) := by
  have hwhite : ∀ c ∈ '-' :: s, isWhite c = false :=
    List.forall_mem_cons.mpr ⟨by decide, fun c hc => isWhite_upper (hs c hc)⟩
  rw [hexInt?, trim_eq_self hwhite]
  simp [hexBody?_upper hne hs]

end Digits

section Written

variable {n : ℕ}

def upperHex (n : ℕ) : List Char := (Nat.toDigits 16 n).map Char.toUpper

theorem upperHex_ne_nil (n : ℕ) : upperHex n ≠ [] := by
  simp [upperHex, Nat.toDigits_ne_nil]

theorem upperHex_spec (n : ℕ) :
    (∀ c ∈ upperHex n, c ∈ upperDigits) ∧ hexNumber 0 (upperHex n) = n := by
  induction n using Nat.strong_induction_on with
  | h n ih =>
    rcases lt_or_ge n 16 with hn | hn
    · obtain ⟨hmem, hv⟩ := upper_digitChar hn
      rw [upperHex, Nat.toDigits_of_lt_base hn]
      simp [hmem, hexNumber, hv]
    · obtain ⟨hmem, hv⟩ := upper_digitChar (Nat.mod_lt n (by norm_num : 0 < 16))
      obtain ⟨hs, hread⟩ := ih (n / 16) (by omega)
      rw [upperHex] at hs hread
      rw [upperHex, Nat.toDigits_of_base_le (by norm_num) hn, List.map_append, hexNumber_append,
        hread]
      refine ⟨fun c hc => ?_, ?_⟩
      · rcases List.mem_append.mp hc with hc | hc
        · exact hs c hc
        · simp only [List.map_cons, List.map_nil, List.mem_singleton] at hc
          exact hc ▸ hmem
      · simp only [hexNumber, List.map_cons, List.map_nil, List.foldl_cons, List.foldl_nil, hv,
          Option.getD_some]
        omega

theorem length_upperHex_le_iff {k : ℕ} (hk : 0 < k) : (upperHex n).length ≤ k ↔ n < 16 ^ k := by
  rw [upperHex, List.length_map, Nat.length_toDigits_le_iff (by norm_num) hk]

/-- What is read from fewer digits is less than the number. -/
theorem hexNumber_lt_of_shorter {s : List Char} (hne : s ≠ []) (hs : ∀ c ∈ s, c ∈ upperDigits)
    (h : s.length < (upperHex n).length) : hexNumber 0 s < n := by
  have hlow : ¬ n < 16 ^ s.length :=
    fun hn => h.not_ge ((length_upperHex_le_iff (List.length_pos_iff.mpr hne)).mpr hn)
  have hhigh := hexNumber_lt (n := 0) hs
  omega

theorem hexNumber_zeros_append (k : ℕ) (s : List Char) :
    hexNumber 0 (List.replicate k '0' ++ s) = hexNumber 0 s := by
  have hzero : hexValue? '0' = some 0 := rfl
  have hzeros : hexNumber 0 (List.replicate k '0') = 0 := by
    induction k with
    | zero => rfl
    | succ k ih => rwa [List.replicate_succ, hexNumber, List.foldl_cons, hzero]
  rw [hexNumber_append, hzeros]

end Written

end Linework.Text
