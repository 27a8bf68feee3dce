import Linework.Proofs.Outline.Division
import Linework.Proofs.Outline.Grammar
import Mathlib.Data.List.Forall2

/-!
# What a text is read as

A body is scanned from left to right: separators are skipped, and everything else has to be the
longest numeral that the rest begins with. A text is read as one element for each of its parts,
up to the first part that is not written so. Whether it is read at all, and what has been read
before it is refused, is said here without the reader.
-/

set_option autoImplicit false

namespace Linework

theorem Text.trim_eq_nil_iff {p : Char → Bool} {s : List Char} :
    Text.trim p s = [] ↔ ∀ c ∈ s, p c := by
  rw [Text.trim, List.reverse_eq_nil_iff, List.dropWhile_eq_nil_iff]
  constructor
  · intro h c hc
    have hnil : s.dropWhile p = [] := by
      cases hd : s.dropWhile p with
      | nil => rfl
      | cons d t =>
        have hp := h d (by simp [hd])
        have hnot := List.head?_dropWhile_not p s
        rw [hd] at hnot
        simp [hp] at hnot
    exact List.dropWhile_eq_nil_iff.mp hnil c hc
  · intro h c hc
    exact h c ((List.dropWhile_sublist p).subset (List.mem_reverse.mp hc))

namespace Outline

def separators : List Char := [' ', '\t', '\n', '\x0b', '\x0c', '\r', ',']

/-- What may stand before the first command letter: the same, but no vertical tab. -/
def leadBlanks : List Char := [' ', '\t', '\r', '\n', '\x0c', ',']

/-- A body that is scanned to its end, with the decimals of its numerals. -/
inductive Scans : List Char → List Decimal → Prop
  | done : Scans [] []
  | separator {c : Char} {s : List Char} {ds : List Decimal} (hc : c ∈ separators)
      (hs : Scans s ds) : Scans (c :: s) ds
  | numeral {s token rest : List Char} {d : Decimal} {ds : List Decimal}
      (hl : IsLongest s token rest d) (hs : Scans rest ds) : Scans s (d :: ds)

section Bodies

variable {s : List Char} {ds : List Decimal}

@[simp] theorem Lexeme.number?_number (d : Decimal) : (number d).number? = some d := rfl

@[simp] theorem Lexeme.number?_other (c : Char) : (other c).number? = none := rfl

@[simp] theorem Lexeme.leftover_number (d : Decimal) : (number d).leftover = ' ' := rfl

@[simp] theorem Lexeme.leftover_other (c : Char) : (other c).leftover = c := rfl

theorem isSeparator_iff {c : Char} : Lexeme.isSeparator c ↔ c ∈ separators := by
  simp [Lexeme.isSeparator, Text.isAsciiSpace, separators, Char.ext_iff, ← UInt32.toNat_inj]
  omega

theorem numeral?_separator {c : Char} (h : c ∈ separators) (s : List Char) :
    numeral? (c :: s) = none := by
  simp only [separators, List.mem_cons, List.not_mem_nil, or_false] at h
  rcases h with rfl | rfl | rfl | rfl | rfl | rfl | rfl <;> rfl

theorem lexemes_nil : lexemes [] = [] := by
  rw [lexemes]

theorem lexemes_numeral {rest : List Char} {d : Decimal} (h : numeral? s = some (d, rest)) :
    lexemes s = .number d :: lexemes rest := by
  cases s with
  | nil => cases h
  | cons c s =>
    rw [lexemes]
    split
    · next hd =>
      rw [h] at hd
      cases hd
      rfl
    · next hn =>
      rw [h] at hn
      cases hn

theorem lexemes_other {c : Char} (h : numeral? (c :: s) = none) :
    lexemes (c :: s) = .other c :: lexemes s := by
  rw [lexemes]
  split
  · next hd =>
    rw [h] at hd
    cases hd
  · rfl

theorem strayText?_eq_none_iff :
    strayText? s = none ↔ ∀ l ∈ lexemes s, l.leftover ∈ separators := by
  simp [strayText?, isSeparator_iff]

theorem scans_iff :
    Scans s ds ↔ strayText? s = none ∧ (lexemes s).filterMap Lexeme.number? = ds := by
  rw [strayText?_eq_none_iff]
  constructor
  · intro h
    induction h with
    | done => simp [lexemes_nil]
    | separator hc hs ih =>
      rw [lexemes_other (numeral?_separator hc _)]
      simpa [hc, List.filterMap_cons] using ih
    | numeral hl hs ih =>
      rw [lexemes_numeral (numeral?_eq_some_iff.mpr ⟨_, hl⟩)]
      simpa [separators] using ih
  · rintro ⟨hstray, rfl⟩
    induction s using lexemes.induct with
    | case1 =>
      rw [lexemes_nil]
      exact .done
    | case2 c s d rest hd ih =>
      obtain ⟨token, hl⟩ := numeral?_eq_some_iff.mp hd
      rw [lexemes_numeral hd] at hstray ⊢
      exact .numeral hl (ih fun l hmem => hstray l (List.mem_cons_of_mem _ hmem))
    | case3 c s hn ih =>
      rw [lexemes_other hn] at hstray ⊢
      exact .separator (hstray _ List.mem_cons_self)
        (ih fun l hmem => hstray l (List.mem_cons_of_mem _ hmem))

end Bodies

section Elements

variable {α : Type} [Scalar α]

structure Denotes (part : Char × List Char) (e : Element α) : Prop where
  letter : e.command.letter = part.1
  numbers : ∃ ds, Scans part.2 ds ∧ e.numbers = ds.map Scalar.ofDecimal
  finite : ∀ x ∈ e.numbers, Scalar.isFinite x

theorem readBody_eq_ok_iff {path : String} {body : List Char} {numbers : List α} :
    readBody path body = .ok numbers ↔
      (∃ ds, Scans body ds ∧ numbers = ds.map Scalar.ofDecimal) ∧
        ∀ x ∈ numbers, Scalar.isFinite x := by
  simp only [scans_iff, readBody]
  split
  · next hs => simp [hs]
  · next hs =>
    split
    · next hf =>
      constructor
      · intro h
        cases h
        exact ⟨⟨_, ⟨hs, rfl⟩, rfl⟩, List.all_eq_true.mp hf⟩
      · rintro ⟨⟨ds, ⟨-, rfl⟩, rfl⟩, -⟩
        rfl
    · next hf =>
      constructor
      · intro h
        cases h
      · rintro ⟨⟨ds, ⟨-, rfl⟩, rfl⟩, h⟩
        exact absurd (List.all_eq_true.mpr h) hf

theorem malformed_of_readBody {path : String} {body : List Char} {fault : Fault}
    (h : (readBody path body : Except Fault (List α)) = .error fault) :
    ∃ reason, fault = .malformedPath reason := by
  simp only [readBody] at h
  split at h
  · exact ⟨_, (Except.error.inj h).symm⟩
  · split at h
    · cases h
    · exact ⟨_, (Except.error.inj h).symm⟩

theorem denotes_lettered_iff (path : String) {q : Command × List Char} {e : Element α} :
    Denotes (lettered q) e ↔ e.command = q.1 ∧ readBody path q.2 = .ok e.numbers := by
  rw [readBody_eq_ok_iff]
  constructor
  · intro h
    refine ⟨?_, h.numbers, h.finite⟩
    have hl := Command.ofLetter?_eq_some_iff.mpr h.letter
    rw [lettered, Command.ofLetter?_letter] at hl
    exact (Option.some.inj hl).symm
  · rintro ⟨hk, hn, hf⟩
    exact ⟨by rw [hk, lettered], hn, hf⟩

theorem denotes_or_first_not (parts : List (Char × List Char)) :
    (∃ es : List (Element α), List.Forall₂ Denotes parts es) ∨
      ∃ done part rest, parts = done ++ part :: rest ∧
        (∃ es : List (Element α), List.Forall₂ Denotes done es) ∧
          ∀ e : Element α, ¬ Denotes part e := by
  induction parts with
  | nil => exact .inl ⟨[], .nil⟩
  | cons part parts ih =>
    by_cases hp : ∃ e : Element α, Denotes part e
    · obtain ⟨e, he⟩ := hp
      rcases ih with ⟨es, hes⟩ | ⟨done, q, rest, rfl, ⟨es, hes⟩, hnot⟩
      · exact .inl ⟨e :: es, .cons he hes⟩
      · exact .inr ⟨part :: done, q, rest, rfl, ⟨e :: es, .cons he hes⟩, hnot⟩
    · exact .inr ⟨[], part, parts, rfl, ⟨[], .nil⟩, not_exists.mp hp⟩

theorem readSegments_append (path : String) {qs : List (Command × List Char)}
    {es fs : List (Element α)} {fault : Option Fault} {rest : List (Command × List Char)}
    (h : List.Forall₂ Denotes (qs.map lettered) es)
    (hr : readSegments path rest = (fs, fault)) :
    readSegments path (qs ++ rest) = (es ++ fs, fault) := by
  induction qs generalizing es with
  | nil =>
    cases h
    exact hr
  | cons q qs ih =>
    obtain ⟨e, es, he, hes, rfl⟩ := List.forall₂_cons_left_iff.mp h
    obtain ⟨hk, hb⟩ := (denotes_lettered_iff path).mp he
    rw [List.cons_append, readSegments, hb, ih hes, ← hk]
    rfl

theorem readSegments_of_not (path : String) {q : Command × List Char}
    (h : ∀ e : Element α, ¬ Denotes (lettered q) e) (rest : List (Command × List Char)) :
    ∃ reason, (readSegments path (q :: rest) : List (Element α) × Option Fault) =
      ([], some (.malformedPath reason)) := by
  rcases hb : (readBody path q.2 : Except Fault (List α)) with fault | numbers
  · obtain ⟨reason, rfl⟩ := malformed_of_readBody hb
    exact ⟨reason, by rw [readSegments, hb]⟩
  · exact absurd ((denotes_lettered_iff path).mpr ⟨rfl, hb⟩) (h ⟨q.1, numbers⟩)

end Elements

section Texts

variable {α : Type} [Scalar α]

/-- A text that is written as elements: nothing but blanks in the lead, and at least one part. -/
def Writes (text : List Char) (es : List (Element α)) : Prop :=
  ∃ lead parts, Divides text lead parts ∧ (∀ c ∈ lead, c ∈ leadBlanks) ∧ parts ≠ [] ∧
    List.Forall₂ Denotes parts es

/-- A text that is not written as elements, with those that stand before its first flaw: in the
lead, for lack of parts, or in the part that comes next. -/
def Breaks (text : List Char) (es : List (Element α)) : Prop :=
  ∃ lead parts, Divides text lead parts ∧
    (((¬ ∀ c ∈ lead, c ∈ leadBlanks) ∨ parts = []) ∧ es = [] ∨
      (∀ c ∈ lead, c ∈ leadBlanks) ∧ ∃ done part rest, parts = done ++ part :: rest ∧
        List.Forall₂ Denotes done es ∧ ∀ e : Element α, ¬ Denotes part e)

theorem writes_or_breaks (text : List Char) :
    (∃ es : List (Element α), Writes text es) ∨ ∃ es : List (Element α), Breaks text es := by
  have hd := divides_segments text
  by_cases hlead : ∀ c ∈ (segments text).1, c ∈ leadBlanks
  · by_cases hnil : (segments text).2.map lettered = []
    · exact .inr ⟨[], _, _, hd, .inl ⟨.inr hnil, rfl⟩⟩
    rcases denotes_or_first_not (α := α) ((segments text).2.map lettered) with
      ⟨es, hes⟩ | ⟨done, part, rest, hparts, ⟨es, hes⟩, hnot⟩
    · exact .inl ⟨es, _, _, hd, hlead, hnil, hes⟩
    · exact .inr ⟨es, _, _, hd, .inr ⟨hlead, done, part, rest, hparts, hes, hnot⟩⟩
  · exact .inr ⟨[], _, _, hd, .inl ⟨.inl hlead, rfl⟩⟩

theorem isEmpty_trim_lead {lead : List Char} :
    (Text.trim isLeadBlank lead).isEmpty ↔ ∀ c ∈ lead, c ∈ leadBlanks := by
  rw [List.isEmpty_iff, Text.trim_eq_nil_iff]
  simp only [isLeadBlank, leadBlanks, List.contains_iff_mem]

theorem tokenize_of_lead {path : String}
    (h : ∀ c ∈ (segments path.toList).1, c ∈ leadBlanks) (hne : (segments path.toList).2 ≠ []) :
    (tokenize path : List (Element α) × Option Fault) =
      readSegments path (segments path.toList).2 := by
  have hblank := isEmpty_trim_lead.mpr h
  simp [tokenize, hblank, hne]

theorem tokenize_of_flaw {path : String}
    (h : (¬ ∀ c ∈ (segments path.toList).1, c ∈ leadBlanks) ∨ (segments path.toList).2 = []) :
    ∃ reason, (tokenize path : List (Element α) × Option Fault) =
      ([], some (.malformedPath reason)) := by
  by_cases hlead : ∀ c ∈ (segments path.toList).1, c ∈ leadBlanks
  · have hblank := isEmpty_trim_lead.mpr hlead
    have hnil := h.resolve_left (not_not_intro hlead)
    exact ⟨.noCommand path, by simp [tokenize, hblank, hnil]⟩
  · have hblank : (Text.trim isLeadBlank (segments path.toList).1).isEmpty = false := by
      rwa [← Bool.not_eq_true, isEmpty_trim_lead]
    rcases hs : strayText? (segments path.toList).1 with _ | stray
    · exact ⟨.leading path, by simp [tokenize, hblank, hs]⟩
    · exact ⟨.unexpected (String.ofList stray) path, by simp [tokenize, hblank, hs]⟩

theorem tokenize_of_writes {path : String} {es : List (Element α)}
    (h : Writes path.toList es) : tokenize path = (es, none) := by
  obtain ⟨lead, parts, hd, hlead, hne, hes⟩ := h
  obtain ⟨rfl, rfl⟩ := hd.segments_eq
  rw [tokenize_of_lead hlead (by simpa using hne)]
  have hr : (readSegments path [] : List (Element α) × Option Fault) = ([], none) := rfl
  simpa using readSegments_append path hes hr

theorem tokenize_of_breaks {path : String} {es : List (Element α)}
    (h : Breaks path.toList es) :
    ∃ reason, tokenize path = (es, some (.malformedPath reason)) := by
  obtain ⟨lead, parts, hd, h⟩ := h
  obtain ⟨rfl, rfl⟩ := hd.segments_eq
  rcases h with ⟨hflaw, rfl⟩ | ⟨hlead, done, part, rest, hparts, hes, hnot⟩
  · exact tokenize_of_flaw (by simpa using hflaw)
  · obtain ⟨qs, rs, hqs, rfl, hrs⟩ := List.map_eq_append_iff.mp hparts
    obtain ⟨q, rs, rfl, rfl, rfl⟩ := List.map_eq_cons_iff.mp hrs
    obtain ⟨reason, hr⟩ := readSegments_of_not path hnot rs
    refine ⟨reason, ?_⟩
    rw [tokenize_of_lead hlead (by simp [hqs]), hqs, readSegments_append path hes hr,
      List.append_nil]

theorem parse_of_tokenize {path : String}
    (h : (tokenize path : List (Element α) × Option Fault).2 = none) :
    parse path = .ok (tokenize path : List (Element α) × Option Fault).1 := by
  rw [parse]
  rcases ht : (tokenize path : List (Element α) × Option Fault) with ⟨es, fault⟩
  rw [ht] at h
  subst h
  rfl

section Verdicts

variable {path : String} {es : List (Element α)}

theorem parse_of_writes (h : Writes path.toList es) : parse path = .ok es := by
  rw [parse, tokenize_of_writes h]

theorem parse_of_breaks (h : Breaks path.toList es) :
    ∃ reason, (parse path : Except Fault (List (Element α))) = .error (.malformedPath reason) ∧
      (tokenize path).1 = es := by
  obtain ⟨reason, ht⟩ := tokenize_of_breaks h
  exact ⟨reason, by rw [parse, ht], by rw [ht]⟩

theorem writes_of_parse (h : parse path = .ok es) : Writes path.toList es := by
  rcases writes_or_breaks (α := α) path.toList with ⟨fs, hfs⟩ | ⟨fs, hfs⟩
  · rw [parse_of_writes hfs] at h
    cases h
    exact hfs
  · obtain ⟨reason, hp, -⟩ := parse_of_breaks hfs
    rw [hp] at h
    cases h

theorem breaks_of_parse {fault : Fault}
    (h : (parse path : Except Fault (List (Element α))) = .error fault) :
    Breaks path.toList (tokenize path : List (Element α) × Option Fault).1 ∧
      ∃ reason, fault = .malformedPath reason := by
  rcases writes_or_breaks (α := α) path.toList with ⟨fs, hfs⟩ | ⟨fs, hfs⟩
  · rw [parse_of_writes hfs] at h
    cases h
  · obtain ⟨reason, hp, rfl⟩ := parse_of_breaks hfs
    rw [hp] at h
    exact ⟨hfs, reason, (Except.error.inj h).symm⟩

end Verdicts

/-- A text is read as elements exactly if it is written as them. Any other text is refused as
malformed, and what has been read until then are the elements before its first flaw. -/
theorem parse_iff_writes (path : String) (es : List (Element Float)) :
    (parse path = .ok es ↔ Writes path.toList es) ∧
      ((∃ reason, (parse path : Except Fault (List (Element Float))) =
        .error (.malformedPath reason) ∧ (tokenize path).1 = es) ↔ Breaks path.toList es) ∧
      ∀ fault, (parse path : Except Fault (List (Element Float))) = .error fault →
        ∃ reason, fault = .malformedPath reason := by
  refine ⟨⟨writes_of_parse, parse_of_writes⟩, ⟨?_, parse_of_breaks⟩,
    fun fault h => (breaks_of_parse h).2⟩
  rintro ⟨reason, h, rfl⟩
  exact (breaks_of_parse h).1

end Texts

end Outline

end Linework
