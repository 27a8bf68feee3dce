import Linework.Proofs.Canvas.Elements
import Linework.Proofs.Outline.Coordinates
import Linework.Sheet.Part

/-!
# What the text of a path reads as

A part is written as its letter and fields, each a separator and a numeral. So the text of a part
is written as one element, with the command of the part and its numbers rounded to ten places, and
the text of a path as one element for each part.
-/

set_option autoImplicit false

namespace Linework

open Outline
open Scalar (Alike)

namespace Part

variable {α : Type}

def map {β : Type} (f : α → β) : Part α → Part β
  | move p => move ⟨f p.x, f p.y⟩
  | line p => line ⟨f p.x, f p.y⟩
  | cubic a b p => cubic ⟨f a.x, f a.y⟩ ⟨f b.x, f b.y⟩ ⟨f p.x, f p.y⟩
  | quadratic a p => quadratic ⟨f a.x, f a.y⟩ ⟨f p.x, f p.y⟩
  | arc r rotation large clockwise p =>
    arc ⟨f r.x, f r.y⟩ (f rotation) large clockwise ⟨f p.x, f p.y⟩
  | close => close

/-- The numbers of a part in the order in which they are written, a flag being zero or one. -/
def numbers [Scalar α] : Part α → List α
  | move p => [p.x, p.y]
  | line p => [p.x, p.y]
  | cubic a b p => [a.x, a.y, b.x, b.y, p.x, p.y]
  | quadratic a p => [a.x, a.y, p.x, p.y]
  | arc r rotation large clockwise p =>
    [r.x, r.y, rotation, Scalar.whole (if large then 1 else 0),
      Scalar.whole (if clockwise then 1 else 0), p.x, p.y]
  | close => []

theorem length_numbers [Scalar α] (part : Part α) : part.numbers.length = part.verb.groupSize := by
  cases part <;> rfl

def rounded (part : Part Float) : Part Float :=
  part.map fun x => Binary64.roundPlaces x Coordinate.places

@[simp] theorem verb_map {β : Type} (f : α → β) (part : Part α) :
    (part.map f).verb = part.verb := by
  cases part <;> rfl

@[simp] theorem verb_rounded (part : Part Float) : part.rounded.verb = part.verb :=
  verb_map _ part

@[simp] theorem coordinates_map {β : Type} (f : α → β) (part : Part α) :
    (part.map f).coordinates = part.coordinates.map f := by
  cases part <;> rfl

def IsFinite [Scalar α] (part : Part α) : Prop := ∀ x ∈ part.coordinates, Scalar.isFinite x

theorem nonFinite?_eq_none_iff [Scalar α] {part : Part α} :
    part.nonFinite? = none ↔ part.IsFinite := by
  rw [nonFinite?, List.findSome?_eq_none_iff, IsFinite]
  refine forall₂_congr fun x _ => ?_
  rw [Scalar.nonFinite?]
  split
  · next hx => simp [hx]
  · next hx =>
    have hsome : ¬ (if Scalar.isNaN x then some NonFinite.nan
        else if Scalar.blt x (Scalar.whole 0) then some .negative else some .positive) = none := by
      split
      · simp
      · split <;> simp
    exact iff_of_false hsome hx

section Fields

def pointFields (p : Point Float) : List (Char × List Char) :=
  [(' ', Coordinate.text p.x), (',', Coordinate.text p.y)]

def fields : Part Float → List (Char × List Char)
  | move p => pointFields p
  | line p => pointFields p
  | cubic a b p => pointFields a ++ pointFields b ++ pointFields p
  | quadratic a p => pointFields a ++ pointFields p
  | arc r rotation large clockwise p =>
    pointFields r ++ [(' ', Coordinate.text rotation), (' ', flagText large),
      (',', flagText clockwise)] ++ pointFields p
  | close => []

def fieldText (fs : List (Char × List Char)) : List Char := fs.flatMap fun f => f.1 :: f.2

theorem text_eq (part : Part Float) : part.text = part.verb.letter :: fieldText part.fields := by
  cases part <;> simp [text, arguments, spaced, fields, pointFields, fieldText, pointText]

def FieldReads (f : Char × List Char) (x : Float) : Prop :=
  f.1 ∈ separators ∧ ∃ d, IsNumeral f.2 d ∧ Alike d.toFloat x

variable {part : Part Float}

theorem fieldReads_text {c : Char} (hc : c ∈ separators) {x : Float} (hx : Scalar.isFinite x) :
    FieldReads (c, Coordinate.text x) (Binary64.roundPlaces x Coordinate.places) :=
  ⟨hc, Coordinate.exists_isNumeral_text hx⟩

theorem fieldReads_flag {c : Char} (hc : c ∈ separators) (b : Bool) :
    FieldReads (c, flagText b) (Scalar.whole (if b then 1 else 0)) := by
  have htext : flagText b = Nat.toDigits 10 (if b then 1 else 0) := by cases b <;> rfl
  obtain ⟨d, hd, hsign, hsize⟩ := spells_toDigits (if b then 1 else 0) [] false .none
  rw [List.nil_append, ← htext] at hd
  have hvalue : d.toFloat = Decimal.toFloat ⟨false, if b then 1 else 0, 0⟩ :=
    Decimal.toFloat_congr hsign (by rw [hsize, Decimal.size, zpow_zero, mul_one])
  exact ⟨hc, d, hd, .inl hvalue⟩

theorem fieldReads_fields (h : part.IsFinite) :
    List.Forall₂ FieldReads part.fields part.rounded.numbers := by
  have hblank : ' ' ∈ separators := by decide
  have hcomma : ',' ∈ separators := by decide
  have hflag := fieldReads_flag hblank
  have hflag' := fieldReads_flag hcomma
  cases part <;> simp only [IsFinite, coordinates, List.forall_mem_cons] at h <;>
    simp [fields, pointFields, rounded, map, numbers, fieldReads_text, *]

end Fields

section Scanning

variable {part : Part Float} {trail : List Char}

theorem head_fieldText_mem {fs : List (Char × List Char)} {xs : List Float}
    (h : List.Forall₂ FieldReads fs xs) (ht : ∀ c ∈ trail, c ∈ separators) :
    ∀ c ∈ (fieldText fs ++ trail).head?, c ∈ separators := by
  intro c hc
  cases h with
  | nil => exact ht c (List.mem_of_mem_head? hc)
  | cons hf _ =>
    cases hc
    exact hf.1

theorem scans_fieldText {fs : List (Char × List Char)} {xs : List Float}
    (h : List.Forall₂ FieldReads fs xs) (ht : ∀ c ∈ trail, c ∈ separators) :
    ∃ ds, Scans (fieldText fs ++ trail) ds ∧
      List.Forall₂ Alike (ds.map (Scalar.ofDecimal (α := Float))) xs := by
  induction h with
  | nil => exact ⟨[], scans_separators ht, .nil⟩
  | @cons f x fs xs hf hfs ih =>
    obtain ⟨hsep, d, hd, halike⟩ := hf
    obtain ⟨ds, hs, hds⟩ := ih
    refine ⟨d :: ds, ?_, .cons halike hds⟩
    have hcons : fieldText (f :: fs) ++ trail = f.1 :: (f.2 ++ (fieldText fs ++ trail)) := by
      simp [fieldText]
    rw [hcons]
    exact .separator hsep (Scans.numeral_cons hd hs (head_fieldText_mem hfs ht))

theorem fieldText_plain {fs : List (Char × List Char)} {xs : List Float}
    (h : List.Forall₂ FieldReads fs xs) : ∀ c ∈ fieldText fs, c ∉ commandLetters := by
  induction h with
  | nil => simp [fieldText]
  | @cons f x fs xs hf _ ih =>
    obtain ⟨hsep, d, hd, -⟩ := hf
    intro c hc
    rw [fieldText, List.flatMap_cons, List.cons_append, List.mem_cons, List.mem_append] at hc
    rcases hc with rfl | hc | hc
    · exact not_mem_commandLetters_of_separator hsep
    · exact hd.not_mem_commandLetters c hc
    · exact ih c hc

/-- An element that is what the text of a part reads as. -/
structure Reads (part : Part Float) (e : Element Float) : Prop where
  command : e.command = ⟨part.verb, false⟩
  count : e.numbers.length = part.verb.groupSize
  numbers : List.Forall₂ Alike e.numbers part.rounded.numbers

theorem isFinite_numbers {xs ys : List Float} (h : List.Forall₂ Alike xs ys)
    (hy : ∀ y ∈ ys, Scalar.isFinite y) : ∀ x ∈ xs, Scalar.isFinite x := by
  induction h with
  | nil => simp
  | cons hxy _ ih =>
    rw [List.forall_mem_cons] at hy ⊢
    exact ⟨Coordinate.isFinite_of_alike hxy hy.1, ih hy.2⟩

theorem isFinite_flag (b : Bool) : Scalar.isFinite (Scalar.whole (if b then 1 else 0) : Float) := by
  cases b <;> decide +kernel

theorem isFinite_rounded_numbers (h : part.IsFinite) :
    ∀ y ∈ part.rounded.numbers, Scalar.isFinite y := by
  have hround {x : Float} (hx : Scalar.isFinite x) :
      Scalar.isFinite (Binary64.roundPlaces x Coordinate.places) :=
    Coordinate.isFinite_roundPlaces hx
  cases part <;> simp only [IsFinite, coordinates, List.forall_mem_cons] at h <;>
    simp [rounded, map, numbers, isFinite_flag, *]

theorem writes_text (trail : List Char) (h : part.IsFinite) (ht : ∀ c ∈ trail, c ∈ separators) :
    ∃ e, Writes (part.text ++ trail) [e] ∧ part.Reads e := by
  have hfields := fieldReads_fields h
  obtain ⟨ds, hs, hds⟩ := scans_fieldText hfields ht
  have hcount : (ds.map (Scalar.ofDecimal (α := Float))).length = part.verb.groupSize := by
    rw [hds.length_eq, length_numbers, verb_rounded]
  refine ⟨⟨⟨part.verb, false⟩, ds.map Scalar.ofDecimal⟩, ?_, rfl, hcount, hds⟩
  refine ⟨[], [(part.verb.letter, fieldText part.fields ++ trail)], ⟨?_, by simp, ?_, ?_⟩, by simp,
    by simp, .cons ⟨rfl, ⟨ds, hs, rfl⟩, isFinite_numbers hds (isFinite_rounded_numbers h)⟩ .nil⟩
  · simp [text_eq]
  · rintro p hp
    rw [List.mem_singleton.mp hp]
    exact Command.letter_mem ⟨part.verb, false⟩
  · rintro p hp c hc
    rw [List.mem_singleton.mp hp] at hc
    rcases List.mem_append.mp hc with hc | hc
    · exact fieldText_plain hfields c hc
    · exact not_mem_commandLetters_of_separator (ht c hc)

theorem head_pathText (p : Part Float) (ps : List (Part Float)) :
    (pathText (p :: ps)).head? = some p.verb.letter := by
  cases ps <;> simp [pathText, spaced, text_eq]

/-- The text of a path is written as one element for each part. -/
theorem writes_pathText {parts : List (Part Float)} (hne : parts ≠ [])
    (h : ∀ part ∈ parts, part.IsFinite) :
    ∃ es, Writes (pathText parts) es ∧ List.Forall₂ Reads parts es := by
  induction parts with
  | nil => exact absurd rfl hne
  | cons p ps ih =>
    cases ps with
    | nil =>
      obtain ⟨e, he, hr⟩ := writes_text [] (h p (by simp)) (by simp)
      exact ⟨[e], by simpa [pathText, spaced] using he, .cons hr .nil⟩
    | cons q qs =>
      obtain ⟨e, he, hr⟩ := writes_text [' '] (h p (by simp)) (by simp [separators])
      obtain ⟨es, hes, hrs⟩ := ih (by simp) fun part hp => h part (List.mem_cons_of_mem p hp)
      refine ⟨e :: es, ?_, .cons hr hrs⟩
      have happ : pathText (p :: q :: qs) = p.text ++ [' '] ++ pathText (q :: qs) := by
        simp [pathText, spaced]
      rw [happ]
      exact he.append hes ⟨_, Command.letter_mem ⟨q.verb, false⟩, head_pathText q qs⟩

theorem parse_pathText {parts : List (Part Float)} (hne : parts ≠ [])
    (h : ∀ part ∈ parts, part.IsFinite) :
    ∃ es, parse (String.ofList (pathText parts)) = .ok es ∧ List.Forall₂ Reads parts es := by
  obtain ⟨es, hw, hr⟩ := writes_pathText hne h
  exact ⟨es, parse_of_writes (by rwa [String.toList_ofList]), hr⟩

end Scanning

end Part

end Linework
