import Linework.Proofs.Act
import Linework.Proofs.Number.Positive
import Linework.Style

/-!
# Making styles

Settings make a style if every one of them passes its check, and the style then holds what they
come to. The settings of a style make that style again, so that replacing none of its attributes
changes nothing.
-/

set_option autoImplicit false

namespace Linework

open Settings (color number)

namespace Settings

theorem number_eq_ok_iff {v : Value} {x : Float} : number v = .ok x ↔ v.number? = some x := by
  rw [number]
  cases v.number? with
  | none => simp
  | some y => simp

theorem checkAlpha_eq_ok_iff {x : Float} {u : Unit} :
    checkAlpha x = .ok u ↔ 0 ≤ x ∧ x ≤ 1 := by
  rw [checkAlpha]
  split
  · next h => exact ⟨fun _ => h, fun _ => rfl⟩
  · next h => exact ⟨fun hx => (nomatch hx), fun hx => absurd hx h⟩

theorem positiveWidths_eq_ok_iff {a b : Value} {w m : Float} :
    positiveWidths a b = .ok (w, m) ↔
      (a.number? = some w ∧ ¬ w ≤ 0) ∧ b.number? = some m ∧ ¬ m ≤ 0 := by
  rw [positiveWidths, ← number_eq_ok_iff, ← number_eq_ok_iff]
  constructor
  · intro h
    obtain ⟨w', hw, h⟩ := exists_of_bind_ok h
    split at h
    · cases h
    · next hpos =>
      obtain ⟨m', hm, h⟩ := exists_of_bind_ok h
      split at h
      · cases h
      · next hpos' =>
        cases h
        exact ⟨⟨hw, hpos⟩, hm, hpos'⟩
  · rintro ⟨⟨hw, hpos⟩, hm, hpos'⟩
    rw [hw, ok_bind, if_neg hpos, hm, ok_bind, if_neg hpos']

theorem color_of_color {v u : Value} (h : color v = .ok u) : color u = .ok u := by
  cases v with
  | list items =>
    rw [color] at h
    rcases hc : Color.ofValues items with e | s
    · rw [hc] at h
      cases h
    · rw [hc] at h
      cases h
      rfl
  | _ =>
    cases h
    rfl

/-- The settings pass their checks and come to the attributes of a style. -/
structure Makes (g : Settings) (s : Style) : Prop where
  cap : LineCap.ofValue (g .lineCap) = .ok s.lineCap
  join : LineJoin.ofValue (g .lineJoin) = .ok s.lineJoin
  alpha : (g .globalAlpha).number? = some s.globalAlpha
  alpha_within : 0 ≤ s.globalAlpha ∧ s.globalAlpha ≤ 1
  width : (g .lineWidth).number? = some s.lineWidth
  width_passes : ¬ s.lineWidth ≤ 0
  miter : (g .miterLimit).number? = some s.miterLimit
  miter_passes : ¬ s.miterLimit ≤ 0
  fill : color (g .fillStyle) = .ok s.fill
  stroke : color (g .strokeStyle) = .ok s.stroke
  width_fits : checkRange (g .lineWidth) = .ok ()
  miter_fits : checkRange (g .miterLimit) = .ok ()

theorem makes_of_toStyle {g : Settings} {s : Style} (h : g.toStyle = .ok s) : g.Makes s := by
  rw [toStyle] at h
  obtain ⟨cap, hcap, h⟩ := exists_of_bind_ok h
  obtain ⟨join, hjoin, h⟩ := exists_of_bind_ok h
  obtain ⟨alpha, halpha, h⟩ := exists_of_bind_ok h
  obtain ⟨_, hcheck, h⟩ := exists_of_bind_ok h
  obtain ⟨⟨width, miter⟩, hwidths, h⟩ := exists_of_bind_ok h
  obtain ⟨fill, hfill, h⟩ := exists_of_bind_ok h
  obtain ⟨stroke, hstroke, h⟩ := exists_of_bind_ok h
  obtain ⟨_, hwidth, h⟩ := exists_of_bind_ok h
  obtain ⟨_, hmiter, h⟩ := exists_of_bind_ok h
  cases h
  obtain ⟨⟨hw, hwpos⟩, hm, hmpos⟩ := positiveWidths_eq_ok_iff.mp hwidths
  exact ⟨hcap, hjoin, number_eq_ok_iff.mp halpha, checkAlpha_eq_ok_iff.mp hcheck, hw, hwpos, hm,
    hmpos, hfill, hstroke, hwidth, hmiter⟩

theorem Makes.toStyle_recolored {g h : Settings} {s : Style} (hg : g.Makes s)
    (hh : ∀ x, x = .fillStyle ∨ x = .strokeStyle ∨ h x = g x) :
    h.toStyle = do
      let fill ← color (h .fillStyle)
      let stroke ← color (h .strokeStyle)
      return { s with fill := fill, stroke := stroke } := by
  have hcheck : checkAlpha s.globalAlpha = .ok () := checkAlpha_eq_ok_iff.mpr hg.alpha_within
  have hwidths : positiveWidths (g .lineWidth) (g .miterLimit) = .ok (s.lineWidth, s.miterLimit) :=
    positiveWidths_eq_ok_iff.mpr ⟨⟨hg.width, hg.width_passes⟩, hg.miter, hg.miter_passes⟩
  have hcap : h .lineCap = g .lineCap := by simpa using hh .lineCap
  have hjoin : h .lineJoin = g .lineJoin := by simpa using hh .lineJoin
  have halpha : h .globalAlpha = g .globalAlpha := by simpa using hh .globalAlpha
  have hwidth : h .lineWidth = g .lineWidth := by simpa using hh .lineWidth
  have hmiter : h .miterLimit = g .miterLimit := by simpa using hh .miterLimit
  rw [toStyle, hcap, hjoin, halpha, hwidth, hmiter, hg.cap, ok_bind, hg.join, ok_bind,
    number_eq_ok_iff.mpr hg.alpha, ok_bind, hcheck, ok_bind, hwidths, ok_bind]
  dsimp only
  rw [hg.width_fits, hg.miter_fits]
  rfl

theorem Makes.toStyle_eq {g : Settings} {s : Style} (h : g.Makes s) : g.toStyle = .ok s := by
  rw [h.toStyle_recolored fun x => .inr (.inr rfl), h.fill, ok_bind, h.stroke]
  rfl

theorem toStyle_eq_ok_iff {g : Settings} {s : Style} : g.toStyle = .ok s ↔ g.Makes s :=
  ⟨makes_of_toStyle, Makes.toStyle_eq⟩

/-- What settings make can be made again from its own settings. -/
theorem Makes.again {g : Settings} {s : Style} (h : g.Makes s) : s.settings.Makes s where
  cap := by cases hs : s.lineCap <;> rw [Style.settings, hs] <;> rfl
  join := by cases hs : s.lineJoin <;> rw [Style.settings, hs] <;> rfl
  alpha := rfl
  alpha_within := h.alpha_within
  width := rfl
  width_passes := h.width_passes
  miter := rfl
  miter_passes := h.miter_passes
  fill := color_of_color h.fill
  stroke := color_of_color h.stroke
  width_fits := rfl
  miter_fits := rfl

theorem override_eq_or_mem (changes : Changes) (g : Settings) (a : StyleAttribute) :
    g.override changes a = g a ∨ ∃ name, StyleAttribute.ofName? name = some a ∧
      (name, g.override changes a) ∈ changes := by
  induction changes generalizing g with
  | nil => exact .inl rfl
  | cons change rest ih =>
    obtain ⟨name, v⟩ := change
    rw [override]
    cases hb : StyleAttribute.ofName? name with
    | some b =>
      dsimp only
      rcases ih (g.put b v) with h | ⟨other, hother, hmem⟩
      · by_cases hab : a = b
        · subst hab
          have hv : g.put a v a = v := if_pos rfl
          rw [h, hv]
          exact .inr ⟨name, hb, List.mem_cons_self⟩
        · left
          rw [h]
          exact if_neg hab
      · exact .inr ⟨other, hother, List.mem_cons_of_mem _ hmem⟩
    | none =>
      rcases ih g with h | ⟨other, hother, hmem⟩
      · exact .inl h
      · exact .inr ⟨other, hother, List.mem_cons_of_mem _ hmem⟩

end Settings

namespace Style

variable {changes : Changes} {s t : Style}

theorem makes_of_create (h : create changes = .ok s) :
    (default.settings.override changes).Makes s := by
  rw [create] at h
  split at h
  · exact Settings.toStyle_eq_ok_iff.mp h
  · cases h

theorem makes_of_updated (h : s.updated changes = .ok t) :
    (s.settings.override changes).Makes t := by
  rw [updated] at h
  split at h
  · cases h
  split at h
  · exact Settings.toStyle_eq_ok_iff.mp h
  · cases h

theorem updated_nil {g : Settings} (h : g.Makes s) : s.updated [] = .ok s :=
  h.again.toStyle_eq

theorem create_nil : create [] = .ok default := rfl

theorem default_makes : default.settings.Makes default := makes_of_create create_nil

end Style

end Linework
