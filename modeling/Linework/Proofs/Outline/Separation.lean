import Linework.Proofs.Outline.Layout

/-!
# Separators in a text

A numeral ends before a separator, so what a text is read as depends on where its separators stand
and not on which they are or how many. At each place where separators may be put or exchanged for
others, the text is read as before. The one exception is the lead, where no vertical tab may stand.
-/

set_option autoImplicit false

namespace Linework.Outline

section Bodies

variable {front back back' token rest : List Char} {d : Decimal} {ds : List Decimal}

theorem IsNumeral.ends_before (h : IsNumeral token d) (he : front ++ back = token ++ rest)
    (hback : ∀ c ∈ back.head?, c ∈ separators) :
    ∃ more, front = token ++ more ∧ rest = more ++ back := by
  rcases List.append_eq_append_iff.mp he with ⟨more, htoken, hrest⟩ | ⟨more, hfront, hrest⟩
  · cases more with
    | nil => exact ⟨[], by simpa using htoken.symm, by simpa using hrest.symm⟩
    | cons c more =>
      have hc : c ∈ separators := hback c (by rw [hrest]; rfl)
      exact absurd hc (h.not_mem_separators c (by simp [htoken]))
  · exact ⟨more, hfront, hrest⟩

theorem IsLongest.replace (h : IsLongest (token ++ (front ++ back)) token (front ++ back) d)
    (hback : ∀ c ∈ back'.head?, c ∈ separators) :
    IsLongest (token ++ (front ++ back')) token (front ++ back') d := by
  refine ⟨rfl, h.numeral, fun t u e htu ht => ?_⟩
  rw [← List.append_assoc] at htu
  obtain ⟨more, hmore, -⟩ := ht.ends_before htu hback
  apply h.longest t (more ++ back) e _ ht
  rw [← List.append_assoc, hmore, List.append_assoc]

/-- What follows a body's numerals may be exchanged if it begins with a separator before and
after. -/
theorem Scans.replace (h : Scans (front ++ back) ds)
    (hback : ∀ c ∈ back.head?, c ∈ separators) (hback' : ∀ c ∈ back'.head?, c ∈ separators)
    (hsame : ∀ es, Scans back es → Scans back' es) : Scans (front ++ back') ds := by
  generalize hs : front ++ back = s at h
  -- along the reading; each numeral of it is used up before `back` begins
  induction h generalizing front with
  | done =>
    obtain ⟨rfl, rfl⟩ := List.append_eq_nil_iff.mp hs
    exact hsame [] .done
  | @separator c s ds hc h ih =>
    cases front with
    | nil =>
      rw [List.nil_append] at hs
      exact hsame ds (hs ▸ .separator hc h)
    | cons b front =>
      obtain ⟨rfl, hrest⟩ := List.cons.inj hs
      exact .separator hc (ih hrest)
  | @numeral s token rest d ds hl h ih =>
    obtain ⟨front, rfl, rfl⟩ := hl.numeral.ends_before (hs.trans hl.eq_append) hback
    have hl' : IsLongest (token ++ (front ++ back)) token (front ++ back) d :=
      hl.eq_append ▸ hl
    rw [List.append_assoc]
    exact .numeral (hl'.replace hback') (ih rfl)

end Bodies

section Texts

variable {before run after w lead lead' body : List Char} {parts first : List (Char × List Char)}
  {k : Char}

/-- The places of a text for separators: its front and its end, on either side of a letter, and
where separators stand already. -/
inductive Joint : List Char → List Char → List Char → Prop
  | atFront (after : List Char) : Joint [] [] after
  | atEnd (before : List Char) : Joint before [] []
  | beforeLetter {c : Char} (hc : c ∈ commandLetters) (before after : List Char) :
      Joint before [] (c :: after)
  | afterLetter {c : Char} (hc : c ∈ commandLetters) (before after : List Char) :
      Joint (before ++ [c]) [] after
  | inPlace {run : List Char} (hne : run ≠ []) (hrun : ∀ c ∈ run, c ∈ separators)
      (before after : List Char) : Joint before run after

theorem Joint.run_separators (h : Joint before run after) : ∀ c ∈ run, c ∈ separators := by
  cases h with
  | inPlace hne hrun => exact hrun
  | _ => simp

theorem not_mem_commandLetters_of_separators (hw : ∀ c ∈ w, c ∈ separators) :
    ∀ c ∈ w, c ∉ commandLetters :=
  fun c hc => not_mem_commandLetters_of_separator (hw c hc)

theorem forall_mem_append {p : Char → Prop} (hl : ∀ c ∈ lead, p c) (hw : ∀ c ∈ w, p c)
    (hl' : ∀ c ∈ lead', p c) : ∀ c ∈ lead ++ w ++ lead', p c := by
  simp only [List.forall_mem_append]
  exact ⟨⟨hl, hw⟩, hl'⟩

theorem Divides.join_lead (hb : Divides before lead []) (hw : ∀ c ∈ w, c ∈ separators)
    (ha : Divides after lead' parts) :
    Divides (before ++ w ++ after) (lead ++ w ++ lead') parts := by
  refine ⟨?_, ?_, ha.letter, ha.body⟩
  · rw [hb.eq_append, ha.eq_append]
    simp
  · exact forall_mem_append hb.lead (not_mem_commandLetters_of_separators hw) ha.lead

theorem Divides.join_body (hb : Divides before lead (first ++ [(k, body)]))
    (hw : ∀ c ∈ w, c ∈ separators) (ha : Divides after lead' parts) :
    Divides (before ++ w ++ after) lead (first ++ (k, body ++ w ++ lead') :: parts) := by
  have hletter := hb.letter
  have hbody := hb.body
  simp only [List.forall_mem_append, List.forall_mem_singleton] at hletter hbody
  refine ⟨?_, hb.lead, ?_, ?_⟩
  · rw [hb.eq_append, ha.eq_append]
    simp
  · simp only [List.forall_mem_append, List.forall_mem_cons]
    exact ⟨hletter.1, hletter.2, ha.letter⟩
  · rw [List.forall_mem_append, List.forall_mem_cons]
    exact ⟨hbody.1,
      forall_mem_append hbody.2 (not_mem_commandLetters_of_separators hw) ha.lead, ha.body⟩

theorem Joint.ends (h : Joint before run after)
    (hb : Divides before lead (first ++ [(k, body)])) (ha : Divides after lead' parts) :
    body = [] ∨ ∀ c ∈ (run ++ lead').head?, c ∈ separators := by
  cases h with
  | atFront after =>
    have hnil := hb.eq_append
    simp at hnil
  | atEnd before =>
    have hnil := ha.eq_append
    have hlead : lead' = [] := (List.append_eq_nil_iff.mp hnil.symm).1
    exact .inr (by simp [hlead])
  | beforeLetter hc before after =>
    have hlead := ha.lead_eq_nil ⟨_, hc, rfl⟩
    exact .inr (by simp [hlead])
  | @afterLetter c hc before after =>
    left
    by_contra hne
    have hlast : c = body.getLast hne := by
      have heq := congrArg List.getLast? hb.eq_append
      simpa [List.getLast?_append, List.getLast?_cons, List.getLast?_eq_getLast_of_ne_nil hne]
        using heq
    refine hb.body (k, body) (by simp) c ?_ hc
    rw [hlast]
    exact List.getLast_mem hne
  | inPlace hne hrun before after =>
    obtain ⟨c, run, rfl⟩ := List.exists_cons_of_ne_nil hne
    exact .inr (by simpa using hrun c List.mem_cons_self)

end Texts

section Elements

variable {α : Type} [Scalar α] {before run after w lead lead' body : List Char}
  {parts first : List (Char × List Char)} {k : Char} {e : Element α} {es : List (Element α)}

theorem Joint.denotes (h : Joint before run after)
    (hb : Divides before lead (first ++ [(k, body)])) (ha : Divides after lead' parts)
    (hw : ∀ c ∈ w, c ∈ separators) (hne : run ≠ [] → w ≠ [])
    (he : Denotes (k, body ++ run ++ lead') e) : Denotes (k, body ++ w ++ lead') e := by
  obtain ⟨ds, hds, hnumbers⟩ := he.numbers
  refine ⟨he.letter, ⟨ds, ?_, hnumbers⟩, he.finite⟩
  have hsame : ∀ ds, Scans (run ++ lead') ds → Scans (w ++ lead') ds := fun ds hds =>
    (scans_separators_append hw).mpr ((scans_separators_append h.run_separators).mp hds)
  simp only [List.append_assoc] at hds ⊢
  rcases h.ends hb ha with rfl | hends
  · exact hsame ds hds
  · apply hds.replace hends _ hsame
    cases w with
    | nil =>
      have hrun : run = [] := by
        by_contra hrun
        exact hne hrun rfl
      rwa [hrun] at hends
    | cons c w => simpa using hw c List.mem_cons_self

theorem forall₂_denotes_exchange {p q : Char × List Char} {rest : List (Char × List Char)}
    (hpq : ∀ e : Element α, Denotes p e → Denotes q e)
    (h : List.Forall₂ Denotes (first ++ p :: rest) es) :
    List.Forall₂ Denotes (first ++ q :: rest) es := by
  induction first generalizing es with
  | nil =>
    obtain ⟨e, es, he, hes, rfl⟩ := List.forall₂_cons_left_iff.mp h
    exact .cons (hpq e he) hes
  | cons part first ih =>
    obtain ⟨e, es, he, hes, rfl⟩ := List.forall₂_cons_left_iff.mp h
    exact .cons he (ih hes)

theorem Joint.writes_of_letter (h : Joint before run after) (hw : ∀ c ∈ w, c ∈ separators)
    (hne : run ≠ [] → w ≠ []) (hletter : ∃ c ∈ before, c ∈ commandLetters)
    (hes : Writes (before ++ run ++ after) es) : Writes (before ++ w ++ after) es := by
  obtain ⟨lead, parts, hd, hblank, -, hes⟩ := hes
  have ha := divides_segments after
  have hb := divides_segments before
  rcases List.eq_nil_or_concat' ((segments before).2.map lettered) with
    hnil | ⟨first, ⟨k, body⟩, hlast⟩
  · -- without a part there is no letter before the joint
    rw [hnil] at hb
    obtain ⟨c, hc, hletter⟩ := hletter
    have hlead : before = (segments before).1 := by simpa using hb.eq_append
    exact absurd hletter (hb.lead c (hlead ▸ hc))
  · -- only the body of the last part reaches over the joint
    rw [hlast] at hb
    obtain ⟨rfl, rfl⟩ := (hb.join_body h.run_separators ha).unique hd
    exact ⟨_, _, hb.join_body hw ha, hblank, by simp,
      forall₂_denotes_exchange (fun e => h.denotes hb ha hw hne) hes⟩

theorem divides_of_plain (h : ∀ c ∈ before, c ∉ commandLetters) : Divides before before [] :=
  ⟨by simp, h, by simp, by simp⟩

theorem Joint.writes_after (h : Joint before run after) (hplain : ∀ c ∈ before, c ∉ commandLetters)
    (hes : Writes (before ++ run ++ after) es) :
    (∀ c ∈ before, c ∈ leadBlanks) ∧ Writes after es := by
  obtain ⟨lead, parts, hd, hblank, hparts, hes⟩ := hes
  have ha := divides_segments after
  obtain ⟨rfl, rfl⟩ := ((divides_of_plain hplain).join_lead h.run_separators ha).unique hd
  simp only [List.forall_mem_append] at hblank
  exact ⟨hblank.1.1, _, _, ha, hblank.2, hparts, hes⟩

theorem mem_leadBlanks_iff {c : Char} : c ∈ leadBlanks ↔ c ∈ separators ∧ c ≠ '\x0b' := by
  simp only [leadBlanks, separators, List.mem_cons, List.not_mem_nil, or_false]
  constructor
  · rintro (rfl | rfl | rfl | rfl | rfl | rfl) <;> decide
  · tauto

theorem parse_of_tab_in_lead {path : String} (hd : Divides path.toList lead parts)
    (hlead : ∀ c ∈ lead, c ∈ separators) (htab : '\x0b' ∈ lead) :
    (parse path : Except Fault (List (Element α))) =
      .error (.malformedPath (.leading path)) := by
  obtain ⟨rfl, -⟩ := hd.segments_eq
  have hstray : strayText? (segments path.toList).1 = none :=
    (scans_iff.mp (scans_separators hlead)).1
  have hblank : (Text.trim isLeadBlank (segments path.toList).1).isEmpty = false := by
    rw [← Bool.not_eq_true, isEmpty_trim_lead]
    exact fun h => (mem_leadBlanks_iff.mp (h _ htab)).2 rfl
  simp [parse, tokenize, hblank, hstray]

/-- Wherever separators may stand, others may be put, and the elements are the same; only a
vertical tab before the first letter is refused. -/
theorem parse_separated (hjoint : Joint before run after) (hw : ∀ c ∈ w, c ∈ separators)
    (hne : run ≠ [] → w ≠ []) (h : parse (String.ofList (before ++ run ++ after)) = .ok es) :
    (parse (String.ofList (before ++ w ++ after)) : Except Fault (List (Element α))) =
      if (∃ c ∈ before, c ∈ commandLetters) ∨ '\x0b' ∉ w then .ok es
      else .error (.malformedPath (.leading (String.ofList (before ++ w ++ after)))) := by
  have hes := writes_of_parse h
  rw [String.toList_ofList] at hes
  by_cases hletter : ∃ c ∈ before, c ∈ commandLetters
  · rw [if_pos (.inl hletter)]
    apply parse_of_writes
    rw [String.toList_ofList]
    exact hjoint.writes_of_letter hw hne hletter hes
  -- from here on everything up to the joint, and what is put there, belongs to the lead
  have hplain : ∀ c ∈ before, c ∉ commandLetters := by simpa using hletter
  obtain ⟨hbefore, lead, parts, hd, hblank, hparts, hes⟩ := hjoint.writes_after hplain hes
  have hall := (divides_of_plain hplain).join_lead hw hd
  by_cases htab : '\x0b' ∈ w
  · rw [if_neg fun h => h.elim hletter (absurd htab)]
    apply parse_of_tab_in_lead (by rwa [String.toList_ofList])
    · exact forall_mem_append (fun c hc => (mem_leadBlanks_iff.mp (hbefore c hc)).1) hw
        fun c hc => (mem_leadBlanks_iff.mp (hblank c hc)).1
    · simp [htab]
  · rw [if_pos (.inr htab)]
    apply parse_of_writes
    rw [String.toList_ofList]
    refine ⟨_, _, hall, forall_mem_append hbefore ?_ hblank, hparts, hes⟩
    exact fun c hc => mem_leadBlanks_iff.mpr ⟨hw c hc, fun h => htab (h ▸ hc)⟩

theorem parse_separated_by_tab :
    ∃ es : List (Element Float),
      parse (String.ofList (['M', '1'] ++ [' '] ++ ['2'])) = .ok es ∧
        parse (String.ofList (['M', '1'] ++ ['\x0b'] ++ ['2'])) = .ok es := by
  have readable : (tokenize (String.ofList (['M', '1'] ++ [' '] ++ ['2'])) :
      List (Element Float) × Option Fault).2 = none := by decide +kernel
  have hes := parse_of_tokenize readable
  have hjoint : Joint ['M', '1'] [' '] ['2'] :=
    .inPlace (List.cons_ne_nil _ _) (by simp [separators]) _ _
  have hw : ∀ c ∈ ['\x0b'], c ∈ separators := by simp [separators]
  refine ⟨_, hes, (parse_separated hjoint hw (by simp) hes).trans (if_pos (.inl ⟨'M', ?_⟩))⟩
  simp [commandLetters]

theorem not_parse_after_tab :
    ¬ ∀ (before run after w : List Char) (es : List (Element Float)),
      Joint before run after → (∀ c ∈ w, c ∈ separators) → (run ≠ [] → w ≠ []) →
        parse (String.ofList (before ++ run ++ after)) = .ok es →
          parse (String.ofList (before ++ w ++ after)) = .ok es := by
  intro h
  have readable : (tokenize (String.ofList ([] ++ [] ++ ['M', '0', ' ', '0'])) :
      List (Element Float) × Option Fault).2 = none := by decide +kernel
  have hw : ∀ c ∈ ['\x0b'], c ∈ separators := by simp [separators]
  have hes := h [] [] _ _ _ (.atFront _) hw (by simp) (parse_of_tokenize readable)
  have ha := divides_segments ['M', '0', ' ', '0']
  rw [ha.lead_eq_nil ⟨'M', by simp [commandLetters], rfl⟩] at ha
  have hplain : ∀ c ∈ ([] : List Char), c ∉ commandLetters := by simp
  have hd := (divides_of_plain hplain).join_lead hw ha
  rw [parse_of_tab_in_lead (by rwa [String.toList_ofList]) (by simp [separators]) (by simp)] at hes
  cases hes

end Elements

end Linework.Outline
