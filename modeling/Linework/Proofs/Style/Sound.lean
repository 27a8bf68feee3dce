import Linework.Proofs.Style.Making

/-!
# What a style can hold

A style is created, or attributes of another style are replaced. However often that is done, the
caps and joins are of the known sorts and the opacity lies between zero and one. The widths are
refused if they are at most zero, which is less than it seems: what is no number is not refused.
So they are positive, or no numbers, and they can only be no numbers if such a width was given.
-/

set_option autoImplicit false

namespace Linework

def Changes.NumericWidths (changes : Changes) : Prop :=
  ∀ name v x, (name, v) ∈ changes →
    name = StyleAttribute.lineWidth.name ∨ name = StyleAttribute.miterLimit.name →
      v.number? = some x → Scalar.isNaN x = false

theorem Changes.numericWidths_nil : NumericWidths [] := by
  intro name v x h
  cases h

theorem Changes.numericWidths_cons {name : String} {v : Value} {rest : Changes}
    (hv : ∀ x, v.number? = some x → Scalar.isNaN x = false) (h : NumericWidths rest) :
    NumericWidths ((name, v) :: rest) := by
  intro n u x hmem hname hx
  rcases List.mem_cons.mp hmem with heq | hrest
  · cases heq
    exact hv x hx
  · exact h n u x hrest hname hx

theorem StyleAttribute.name_of_ofName? {name : String} {a : StyleAttribute}
    (h : ofName? name = some a) : name = a.name := by
  rw [ofName?] at h
  have hname := List.find?_some h
  exact (eq_of_beq hname).symm

theorem Settings.number_override {g : Settings} {changes : Changes} {a : StyleAttribute}
    {x : Float} (h : (g.override changes a).number? = some x) :
    (g a).number? = some x ∨ ∃ v, (a.name, v) ∈ changes ∧ v.number? = some x := by
  rcases g.override_eq_or_mem changes a with heq | ⟨name, hname, hmem⟩
  · rw [heq] at h
    exact .inl h
  · rw [StyleAttribute.name_of_ofName? hname] at hmem
    exact .inr ⟨_, hmem, h⟩

namespace Style

/-- The styles that can be had by creating one and replacing attributes, with changes of some
sort. -/
inductive Obtained (given : Changes → Prop) : Style → Prop
  | created {changes : Changes} {s : Style} (hg : given changes) (h : create changes = .ok s) :
      Obtained given s
  | updated {changes : Changes} {s t : Style} (hs : Obtained given s) (hg : given changes)
      (h : s.updated changes = .ok t) : Obtained given t

/-- A style within the bounds of its attributes, where a width may be no number at all. -/
structure Sound (s : Style) : Prop where
  width : 0 < s.lineWidth ∨ Scalar.isNaN s.lineWidth
  miter : 0 < s.miterLimit ∨ Scalar.isNaN s.miterLimit
  alpha : 0 ≤ s.globalAlpha ∧ s.globalAlpha ≤ 1
  cap : s.lineCap.name ∈ ["butt", "round", "square"]
  join : s.lineJoin.name ∈ ["miter", "round", "bevel"]

def Numeric (s : Style) : Prop :=
  Scalar.isNaN s.lineWidth = false ∧ Scalar.isNaN s.miterLimit = false

def Positive (s : Style) : Prop := 0 < s.lineWidth ∧ 0 < s.miterLimit

theorem Sound.positive_iff {s : Style} (h : s.Sound) : s.Positive ↔ s.Numeric := by
  constructor
  · rintro ⟨hw, hm⟩
    exact ⟨Binary64.isNaN_of_positive hw, Binary64.isNaN_of_positive hm⟩
  · rintro ⟨hw, hm⟩
    exact ⟨h.width.resolve_right (by simp [hw]), h.miter.resolve_right (by simp [hm])⟩

theorem sound_of_makes {g : Settings} {s : Style} (h : g.Makes s) : s.Sound where
  width := Binary64.not_le_zero_iff.mp h.width_passes
  miter := Binary64.not_le_zero_iff.mp h.miter_passes
  alpha := h.alpha_within
  cap := by cases s.lineCap <;> decide
  join := by cases s.lineJoin <;> decide

theorem updated_width {g : Settings} {s : Style} (h : g.Makes s) {x : Float} (hx : ¬ x ≤ 0) :
    s.updated [(StyleAttribute.lineWidth.name, .real x)] = .ok { s with lineWidth := x } := by
  have hagain := h.again
  have hput : (s.settings.put .lineWidth (.real x)).Makes { s with lineWidth := x } :=
    { hagain with width := rfl, width_passes := hx, width_fits := rfl }
  exact hput.toStyle_eq

theorem default_numeric : default.Numeric := ⟨rfl, rfl⟩

theorem numeric_of_override {changes : Changes} {s t : Style} (hs : s.Numeric)
    (hg : changes.NumericWidths) (h : (s.settings.override changes).Makes t) : t.Numeric := by
  constructor
  · rcases Settings.number_override h.width with hold | ⟨v, hv, hx⟩
    · rw [← Option.some.inj hold]
      exact hs.1
    · exact hg _ v _ hv (.inl rfl) hx
  · rcases Settings.number_override h.miter with hold | ⟨v, hv, hx⟩
    · rw [← Option.some.inj hold]
      exact hs.2
    · exact hg _ v _ hv (.inr rfl) hx

variable {given : Changes → Prop} {s : Style}

theorem Obtained.makes (h : Obtained given s) : ∃ g : Settings, g.Makes s := by
  cases h with
  | created _ h => exact ⟨_, makes_of_create h⟩
  | updated _ _ h => exact ⟨_, makes_of_updated h⟩

theorem Obtained.sound (h : Obtained given s) : s.Sound := by
  obtain ⟨g, hg⟩ := h.makes
  exact sound_of_makes hg

theorem Obtained.exists_not_positive (h : Obtained given s) {x : Float} (hx : Scalar.isNaN x) :
    ∃ t, s.updated [(StyleAttribute.lineWidth.name, .real x)] = .ok t ∧ ¬ t.Positive := by
  obtain ⟨g, hg⟩ := h.makes
  refine ⟨_, updated_width hg (Binary64.not_le_zero_iff.mpr (.inr hx)), ?_⟩
  rintro ⟨hwidth, -⟩
  have hnumber := Binary64.isNaN_of_positive hwidth
  rw [hx] at hnumber
  cases hnumber

theorem Obtained.positive (h : Obtained given s)
    (hgiven : ∀ changes, given changes → changes.NumericWidths) : s.Positive := by
  -- along the changes, none of which gives a width that is no number
  have hnumeric : s.Numeric := by
    induction h with
    | created hg h =>
      exact numeric_of_override default_numeric (hgiven _ hg) (makes_of_create h)
    | updated _ hg h ih => exact numeric_of_override ih (hgiven _ hg) (makes_of_updated h)
  exact h.sound.positive_iff.mpr hnumeric

end Style

end Linework
