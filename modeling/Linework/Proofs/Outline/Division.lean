import Linework.Outline.PathText
import Mathlib.Data.List.Flatten

/-!
# Where a text is divided

The command letters divide a text: a lead without letters comes first, then parts, each a letter
and a body without letters. There is one such division of every text, and a text that begins
with a letter divides for itself wherever it is put.
-/

set_option autoImplicit false

namespace Linework.Outline

def commandLetters : List Char :=
  ['M', 'm', 'Z', 'z', 'L', 'l', 'H', 'h', 'V', 'v', 'C', 'c', 'S', 's', 'Q', 'q', 'T', 't', 'A',
    'a']

namespace Command

theorem ofLetter?_letter (k : Command) : ofLetter? k.letter = some k := by
  rcases k with ⟨v, r⟩
  cases v <;> cases r <;> decide

theorem letter_mem (k : Command) : k.letter ∈ commandLetters := by
  rcases k with ⟨v, r⟩
  cases v <;> cases r <;> decide

theorem ofLetter?_eq_some_iff {c : Char} {k : Command} : ofLetter? c = some k ↔ k.letter = c := by
  constructor
  · intro h
    have hk := List.find?_some h
    exact beq_iff_eq.mp hk
  · rintro rfl
    exact ofLetter?_letter k

theorem exists_letter_eq : ∀ c ∈ commandLetters, ∃ k : Command, k.letter = c := by
  intro c hc
  have hfound : (commandLetters.all fun d => (ofLetter? d).isSome) = true := by decide
  obtain ⟨k, hk⟩ := Option.isSome_iff_exists.mp (List.all_eq_true.mp hfound c hc)
  exact ⟨k, ofLetter?_eq_some_iff.mp hk⟩

theorem ofLetter?_eq_none_iff {c : Char} : ofLetter? c = none ↔ c ∉ commandLetters := by
  constructor
  · intro h hc
    obtain ⟨k, rfl⟩ := exists_letter_eq c hc
    simp [ofLetter?_letter] at h
  · intro h
    cases hc : ofLetter? c with
    | none => rfl
    | some k =>
      rw [← ofLetter?_eq_some_iff.mp hc] at h
      exact absurd k.letter_mem h

end Command

/-- A lead and parts, each a letter with the body that follows it, which make up a text. -/
structure Divides (text lead : List Char) (parts : List (Char × List Char)) : Prop where
  eq_append : text = lead ++ parts.flatMap fun p => p.1 :: p.2
  lead : ∀ c ∈ lead, c ∉ commandLetters
  letter : ∀ p ∈ parts, p.1 ∈ commandLetters
  body : ∀ p ∈ parts, ∀ c ∈ p.2, c ∉ commandLetters

def lettered (segment : Command × List Char) : Char × List Char := (segment.1.letter, segment.2)

section Segments

variable {s lead : List Char} {parts : List (Char × List Char)}

theorem segments_letter (k : Command) (s : List Char) :
    segments (k.letter :: s) = ([], (k, (segments s).1) :: (segments s).2) := by
  simp [segments, Command.ofLetter?_letter]

theorem segments_other {c : Char} (h : c ∉ commandLetters) (s : List Char) :
    segments (c :: s) = (c :: (segments s).1, (segments s).2) := by
  simp [segments, Command.ofLetter?_eq_none_iff.mpr h]

theorem segments_append_of_plain (h : ∀ c ∈ lead, c ∉ commandLetters) (s : List Char) :
    segments (lead ++ s) = (lead ++ (segments s).1, (segments s).2) := by
  induction lead with
  | nil => rfl
  | cons c lead ih =>
    rw [List.cons_append, segments_other (h c List.mem_cons_self),
      ih fun d hd => h d (List.mem_cons_of_mem c hd)]
    rfl

theorem divides_segments (s : List Char) :
    Divides s (segments s).1 ((segments s).2.map lettered) := by
  induction s with
  | nil => exact ⟨rfl, by simp [segments], by simp [segments], by simp [segments]⟩
  | cons c s ih =>
    by_cases hc : c ∈ commandLetters
    · obtain ⟨k, rfl⟩ := Command.exists_letter_eq c hc
      rw [segments_letter]
      refine ⟨?_, by simp, ?_, ?_⟩
      · simp only [List.map_cons, List.flatMap_cons, lettered, List.nil_append, List.cons_append]
        rw [← ih.eq_append]
      · intro p hp
        rcases List.mem_cons.mp hp with rfl | hp
        · exact k.letter_mem
        · exact ih.letter p hp
      · intro p hp
        rcases List.mem_cons.mp hp with rfl | hp
        · exact ih.lead
        · exact ih.body p hp
    · rw [segments_other hc]
      refine ⟨?_, ?_, ih.letter, ih.body⟩
      · rw [List.cons_append, ← ih.eq_append]
      · intro d hd
        rcases List.mem_cons.mp hd with rfl | hd
        · exact hc
        · exact ih.lead d hd

theorem segments_flatMap (hl : ∀ p ∈ parts, p.1 ∈ commandLetters)
    (hb : ∀ p ∈ parts, ∀ c ∈ p.2, c ∉ commandLetters) :
    (segments (parts.flatMap fun p => p.1 :: p.2)).1 = [] ∧
      (segments (parts.flatMap fun p => p.1 :: p.2)).2.map lettered = parts := by
  induction parts with
  | nil => exact ⟨rfl, rfl⟩
  | cons p parts ih =>
    obtain ⟨k, hk⟩ := Command.exists_letter_eq p.1 (hl p List.mem_cons_self)
    obtain ⟨hlead, hparts⟩ := ih (fun q hq => hl q (List.mem_cons_of_mem p hq))
      fun q hq => hb q (List.mem_cons_of_mem p hq)
    rw [List.flatMap_cons, List.cons_append, ← hk, segments_letter,
      segments_append_of_plain (hb p List.mem_cons_self), hlead, List.append_nil, List.map_cons,
      hparts]
    exact ⟨rfl, by rw [lettered, hk]⟩

/-- A text has one division only, the one that is found. -/
theorem Divides.segments_eq (h : Divides s lead parts) :
    (segments s).1 = lead ∧ (segments s).2.map lettered = parts := by
  obtain ⟨rfl, hlead, hletter, hbody⟩ := h
  obtain ⟨hnil, hparts⟩ := segments_flatMap hletter hbody
  rw [segments_append_of_plain hlead, hnil, List.append_nil]
  exact ⟨rfl, hparts⟩

theorem Divides.unique {lead' : List Char} {parts' : List (Char × List Char)}
    (h : Divides s lead parts) (h' : Divides s lead' parts') : lead = lead' ∧ parts = parts' :=
  ⟨h.segments_eq.1.symm.trans h'.segments_eq.1, h.segments_eq.2.symm.trans h'.segments_eq.2⟩

theorem Divides.lead_eq_nil (h : Divides s lead parts)
    (hs : ∃ letter ∈ commandLetters, s.head? = some letter) : lead = [] := by
  obtain ⟨letter, hletter, hs⟩ := hs
  cases lead with
  | nil => rfl
  | cons c lead =>
    have hc : c = letter := by simpa [h.eq_append] using hs
    exact absurd (hc ▸ hletter) (h.lead c List.mem_cons_self)

end Segments

end Linework.Outline
