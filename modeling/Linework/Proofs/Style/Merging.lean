import Linework.Proofs.Style.Sound
import Mathlib.Data.List.Sort

/-!
# Changes one after another

A style is changed by laying attributes over its settings and checking all of them again. What is
checked again has been converted by then, and a check takes it as it took the value that was
given. So changes one after another are the changes laid over one another, of which the later one
counts, whatever the outcome is. No check looks at two attributes, so changes of different ones
may be made in any order.
-/

set_option autoImplicit false

namespace Linework

open Settings (color number checkRange)

namespace Changes

/-- What changes give to a name: a later value counts more than an earlier one. -/
def value? (changes : Changes) (name : String) : Option Value := changes.reverse.lookup name

/-- Changes that give to every name what `b` gives to it, or else what `a` does. -/
def IsMerge (a b m : Changes) : Prop := ∀ name, m.value? name = (b.value? name).or (a.value? name)

def Disjoint (a b : Changes) : Prop := ∀ name, a.value? name = none ∨ b.value? name = none

variable {a b c : Changes} {rows : List Changes} {name : String} {v : Value}

theorem value?_append (a b : Changes) (name : String) :
    value? (a ++ b) name = (b.value? name).or (a.value? name) := by
  rw [value?, List.reverse_append, List.lookup_append]
  rfl

theorem value?_cons (given : String) (v : Value) (rest : Changes) (name : String) :
    value? ((given, v) :: rest) name =
      (rest.value? name).or (if name == given then some v else none) := by
  rw [value?, List.reverse_cons, List.lookup_append, List.lookup_cons]
  cases name == given <;> rfl

theorem isMerge_append (a b : Changes) : IsMerge a b (a ++ b) := value?_append a b

theorem value?_isSome_iff : (c.value? name).isSome ↔ name ∈ c.map Prod.fst := by
  simp [value?]

theorem Disjoint.symm (h : Disjoint a b) : Disjoint b a := fun name => (h name).symm

theorem exists_of_value?_flatten (h : value? rows.flatten name = some v) :
    ∃ row ∈ rows, row.value? name = some v := by
  induction rows with
  | nil => cases h
  | cons row rows ih =>
    rw [List.flatten_cons, value?_append, Option.or_eq_some_iff] at h
    rcases h with hrest | ⟨-, hrow⟩
    · obtain ⟨other, hmem, hother⟩ := ih hrest
      exact ⟨other, List.mem_cons_of_mem _ hmem, hother⟩
    · exact ⟨row, List.mem_cons_self, hrow⟩

theorem value?_flatten_iff (hd : rows.Pairwise Disjoint) :
    value? rows.flatten name = some v ↔ ∃ row ∈ rows, row.value? name = some v := by
  refine ⟨exists_of_value?_flatten, ?_⟩
  induction rows with
  | nil => simp
  | cons row rows ih =>
    obtain ⟨hrow, hrows⟩ := List.pairwise_cons.mp hd
    rintro ⟨other, hmem, hother⟩
    rw [List.flatten_cons, value?_append, Option.or_eq_some_iff]
    rcases List.mem_cons.mp hmem with rfl | hmem
    · refine .inr ⟨?_, hother⟩
      cases hrest : value? rows.flatten name with
      | none => rfl
      | some w =>
        obtain ⟨d, hd, hw⟩ := exists_of_value?_flatten hrest
        rcases hrow d hd name with hnone | hnone
        · cases hother.symm.trans hnone
        · cases hw.symm.trans hnone
    · exact .inl (ih hrows ⟨other, hmem, hother⟩)

end Changes

namespace Settings

theorem override_append (s : Settings) (a b : Changes) :
    s.override (a ++ b) = (s.override a).override b := by
  induction a generalizing s with
  | nil => rfl
  | cons change rest ih =>
    obtain ⟨name, v⟩ := change
    rw [List.cons_append, override, override]
    cases StyleAttribute.ofName? name with
    | some x => exact ih _
    | none => exact ih s

end Settings

@[simp] theorem StyleAttribute.ofName?_name (x : StyleAttribute) : ofName? x.name = some x := by
  cases x <;> rfl

theorem StyleAttribute.name_inj {x y : StyleAttribute} : x.name = y.name ↔ x = y := by
  refine ⟨fun h => ?_, congrArg _⟩
  have hx := ofName?_name x
  rw [h, ofName?_name] at hx
  exact (Option.some.inj hx).symm

namespace Settings

theorem override_eq (s : Settings) (c : Changes) (x : StyleAttribute) :
    s.override c x = (c.value? x.name).getD (s x) := by
  induction c generalizing s with
  | nil => rfl
  | cons change rest ih =>
    obtain ⟨name, v⟩ := change
    rw [Changes.value?_cons, override]
    cases hb : StyleAttribute.ofName? name with
    | some b =>
      obtain rfl := StyleAttribute.name_of_ofName? hb
      dsimp only
      rw [ih, put]
      cases hrest : Changes.value? rest x.name with
      | some w => simp
      | none => by_cases hxb : x = b <;> simp [hxb, StyleAttribute.name_inj]
    | none =>
      have hne : x.name ≠ name := by
        rintro rfl
        rw [StyleAttribute.ofName?_name] at hb
        cases hb
      dsimp only
      rw [ih, beq_false_of_ne hne, if_neg Bool.false_ne_true, Option.or_none]

end Settings

section Agreement

/-- Values that the check of an attribute takes alike. -/
def StyleAttribute.Agree (x : StyleAttribute) (v w : Value) : Prop :=
  match x with
  | fillStyle | strokeStyle => color v = color w
  | lineWidth | miterLimit => number v = number w ∧ checkRange v = checkRange w
  | lineCap => LineCap.ofValue v = LineCap.ofValue w
  | lineJoin => LineJoin.ofValue v = LineJoin.ofValue w
  | globalAlpha => number v = number w

theorem StyleAttribute.agree_refl (x : StyleAttribute) (v : Value) : x.Agree v v := by
  cases x <;> simp [Agree]

def StyleAttribute.Passes (x : StyleAttribute) (v : Value) : Prop :=
  match x with
  | fillStyle | strokeStyle => ∃ u, color v = .ok u
  | lineWidth | miterLimit => (∃ y, number v = .ok y ∧ ¬ y ≤ 0) ∧ checkRange v = .ok ()
  | lineCap => ∃ c, LineCap.ofValue v = .ok c
  | lineJoin => ∃ j, LineJoin.ofValue v = .ok j
  | globalAlpha => ∃ y, number v = .ok y ∧ 0 ≤ y ∧ y ≤ 1

variable {g h : Settings} {s t : Style}

theorem Settings.toStyle_congr (hgh : ∀ x : StyleAttribute, x.Agree (g x) (h x)) :
    g.toStyle = h.toStyle := by
  have hcap : LineCap.ofValue (g .lineCap) = LineCap.ofValue (h .lineCap) := hgh .lineCap
  have hjoin : LineJoin.ofValue (g .lineJoin) = LineJoin.ofValue (h .lineJoin) := hgh .lineJoin
  have halpha : number (g .globalAlpha) = number (h .globalAlpha) := hgh .globalAlpha
  have hfill : color (g .fillStyle) = color (h .fillStyle) := hgh .fillStyle
  have hstroke : color (g .strokeStyle) = color (h .strokeStyle) := hgh .strokeStyle
  obtain ⟨hwidth, hwidth'⟩ := hgh .lineWidth
  obtain ⟨hmiter, hmiter'⟩ := hgh .miterLimit
  rw [toStyle, toStyle, hcap, hjoin, halpha, positiveWidths, positiveWidths, hwidth, hmiter, hfill,
    hstroke, hwidth', hmiter']

theorem Settings.Makes.agree (hg : g.Makes t) (x : StyleAttribute) :
    x.Agree (t.settings x) (g x) := by
  have hwidth := number_eq_ok_iff.mpr hg.width
  have hmiter := number_eq_ok_iff.mpr hg.miter
  have halpha := number_eq_ok_iff.mpr hg.alpha
  cases x with
  | fillStyle => exact hg.again.fill.trans hg.fill.symm
  | strokeStyle => exact hg.again.stroke.trans hg.stroke.symm
  | lineWidth => exact ⟨hwidth.symm, hg.width_fits.symm⟩
  | miterLimit => exact ⟨hmiter.symm, hg.miter_fits.symm⟩
  | lineCap => exact hg.again.cap.trans hg.cap.symm
  | lineJoin => exact hg.again.join.trans hg.join.symm
  | globalAlpha => exact halpha.symm

/-- Settings are checked one by one: no check looks at two of them. -/
theorem Settings.exists_toStyle_iff :
    (∃ s, g.toStyle = .ok s) ↔ ∀ x : StyleAttribute, x.Passes (g x) := by
  simp only [toStyle_eq_ok_iff]
  constructor
  · rintro ⟨s, hs⟩ x
    have hwidth := number_eq_ok_iff.mpr hs.width
    have hmiter := number_eq_ok_iff.mpr hs.miter
    have halpha := number_eq_ok_iff.mpr hs.alpha
    cases x with
    | fillStyle => exact ⟨_, hs.fill⟩
    | strokeStyle => exact ⟨_, hs.stroke⟩
    | lineWidth => exact ⟨⟨_, hwidth, hs.width_passes⟩, hs.width_fits⟩
    | miterLimit => exact ⟨⟨_, hmiter, hs.miter_passes⟩, hs.miter_fits⟩
    | lineCap => exact ⟨_, hs.cap⟩
    | lineJoin => exact ⟨_, hs.join⟩
    | globalAlpha => exact ⟨_, halpha, hs.alpha_within⟩
  · intro hg
    obtain ⟨fill, hfill⟩ := hg .fillStyle
    obtain ⟨stroke, hstroke⟩ := hg .strokeStyle
    obtain ⟨⟨width, hwidth, hpos⟩, hfits⟩ := hg .lineWidth
    obtain ⟨⟨miter, hmiter, hpos'⟩, hfits'⟩ := hg .miterLimit
    obtain ⟨cap, hcap⟩ := hg .lineCap
    obtain ⟨join, hjoin⟩ := hg .lineJoin
    obtain ⟨alpha, halpha, hwithin⟩ := hg .globalAlpha
    exact ⟨⟨fill, stroke, width, cap, join, miter, alpha⟩, hcap, hjoin,
      number_eq_ok_iff.mp halpha, hwithin, number_eq_ok_iff.mp hwidth, hpos,
      number_eq_ok_iff.mp hmiter, hpos', hfill, hstroke, hfits, hfits'⟩

theorem Settings.Makes.settings_eq (hg : g.Makes s) (hh : h.Makes t) {x : StyleAttribute}
    (hx : x.Agree (g x) (h x)) : s.settings x = t.settings x := by
  have hreal {v w : Value} {y z : Float} (hy : v.number? = some y) (hz : w.number? = some z)
      (hvw : number v = number w) : Value.real y = .real z := by
    rw [number_eq_ok_iff.mpr hy, number_eq_ok_iff.mpr hz] at hvw
    exact congrArg Value.real (Except.ok.inj hvw)
  cases x with
  | fillStyle => exact Except.ok.inj (hg.fill.symm.trans (Eq.trans hx hh.fill))
  | strokeStyle => exact Except.ok.inj (hg.stroke.symm.trans (Eq.trans hx hh.stroke))
  | lineWidth => exact hreal hg.width hh.width hx.1
  | miterLimit => exact hreal hg.miter hh.miter hx.1
  | lineCap =>
    have hcap : s.lineCap = t.lineCap := Except.ok.inj (hg.cap.symm.trans (Eq.trans hx hh.cap))
    rw [Style.settings, Style.settings, hcap]
  | lineJoin =>
    have hjoin : s.lineJoin = t.lineJoin := Except.ok.inj (hg.join.symm.trans (Eq.trans hx hh.join))
    rw [Style.settings, Style.settings, hjoin]
  | globalAlpha => exact hreal hg.alpha hh.alpha hx

theorem Settings.agree_override (hgh : ∀ x : StyleAttribute, x.Agree (g x) (h x)) (c : Changes)
    (x : StyleAttribute) : x.Agree (g.override c x) (h.override c x) := by
  rw [override_eq, override_eq]
  cases c.value? x.name with
  | none => exact hgh x
  | some v => exact x.agree_refl v

end Agreement

namespace Style

section Names

variable {a b c d : Changes} {name : String} {s : Style}

theorem mem_unknownNames_iff :
    name ∈ unknownNames c ↔ (c.value? name).isSome ∧ StyleAttribute.ofName? name = none := by
  rw [unknownNames, List.mem_filter, Changes.value?_isSome_iff, Option.isNone_iff_eq_none]

theorem unknownNames_append (a b : Changes) :
    unknownNames (a ++ b) = unknownNames a ++ unknownNames b := by
  rw [unknownNames, List.map_append, List.filter_append]
  rfl

theorem any_reserved_iff :
    (c.any fun e => e.1 == reservedName) = true ↔ (c.value? reservedName).isSome := by
  rw [Changes.value?_isSome_iff]
  simp

theorem nodup_eraseDups : ∀ xs : List String, xs.eraseDups.Nodup
  | [] => by simp
  | x :: xs => by
    rw [List.eraseDups_cons, List.nodup_cons, List.mem_eraseDups]
    exact ⟨by simp, nodup_eraseDups _⟩
termination_by xs => xs.length
decreasing_by exact Nat.lt_succ_of_le (List.length_filter_le _ _)

theorem sort_eraseDups_congr {xs ys : List String} (h : ∀ x, x ∈ xs ↔ x ∈ ys) :
    (xs.eraseDups.mergeSort fun a b => decide (a ≤ b)) =
      ys.eraseDups.mergeSort fun a b => decide (a ≤ b) := by
  have hperm : xs.eraseDups.Perm ys.eraseDups := by
    rw [List.perm_ext_iff_of_nodup (nodup_eraseDups xs) (nodup_eraseDups ys)]
    simpa using h
  have hsorted := (List.mergeSort_perm xs.eraseDups fun a b => decide (a ≤ b)).trans
    (hperm.trans (List.mergeSort_perm ys.eraseDups fun a b => decide (a ≤ b)).symm)
  exact hsorted.eq_of_pairwise' (List.pairwise_mergeSort' (· ≤ ·) _)
    (List.pairwise_mergeSort' (· ≤ ·) _)

theorem updated_eq (s : Style) (c : Changes) :
    s.updated c =
      if c.any fun e => e.1 == reservedName then .error .wrongType
      else if unknownNames c = [] then (s.settings.override c).toStyle
      else .error (.unknownAttributes
        ((unknownNames c).eraseDups.mergeSort fun a b => decide (a ≤ b))) := by
  rw [updated]
  congr 1
  split
  · next h => rw [if_pos h]
  · next h => rw [if_neg h]

theorem updated_congr (h : ∀ name, c.value? name = d.value? name) :
    s.updated c = s.updated d := by
  have hreserved : (c.any fun e => e.1 == reservedName) = d.any fun e => e.1 == reservedName := by
    rw [Bool.eq_iff_iff, any_reserved_iff, any_reserved_iff, h]
  have hnames : ∀ name, name ∈ unknownNames c ↔ name ∈ unknownNames d := by
    intro name
    rw [mem_unknownNames_iff, mem_unknownNames_iff, h]
  have hnil : unknownNames c = [] ↔ unknownNames d = [] := by
    simp only [List.eq_nil_iff_forall_not_mem, hnames]
  have hoverride : s.settings.override c = s.settings.override d := by
    funext x
    rw [Settings.override_eq, Settings.override_eq, h]
  rw [updated_eq, updated_eq, hreserved, hoverride, sort_eraseDups_congr hnames]
  simp only [hnil]

end Names

section Runs

variable {a b c m p : Changes} {rows rows' : List Changes} {g : Settings} {s t u : Style}

theorem updated_eq_ok_iff :
    s.updated c = .ok t ↔ (c.any fun e => e.1 == reservedName) = false ∧ unknownNames c = [] ∧
      (s.settings.override c).Makes t := by
  rw [updated_eq, ← Settings.toStyle_eq_ok_iff]
  split
  · next h => simp [h]
  · next h =>
    split
    · next hnil => simp [h, hnil]
    · next hne => simp [hne]

/-- After changes that were made, others have the outcome that all of them have at once. -/
theorem updated_of_updated (ha : s.updated a = .ok t) (b : Changes) :
    t.updated b = s.updated (a ++ b) := by
  obtain ⟨hreserved, hnames, hmakes⟩ := updated_eq_ok_iff.mp ha
  have hagain := Settings.toStyle_congr (Settings.agree_override hmakes.agree b)
  rw [updated_eq, updated_eq, List.any_append, hreserved, Bool.false_or, unknownNames_append,
    hnames, List.nil_append, Settings.override_append, hagain]

theorem settings_updated (hs : g.Makes s) (hc : s.updated c = .ok t) {x : StyleAttribute}
    (hx : c.value? x.name = none) : t.settings x = s.settings x := by
  refine (makes_of_updated hc).settings_eq hs.again ?_
  rw [Settings.override_eq, hx]
  exact x.agree_refl _

theorem exists_updated_of_part (hs : g.Makes s) (hc : s.updated c = .ok t)
    (hp : ∀ name v, p.value? name = some v → c.value? name = some v) :
    ∃ u, s.updated p = .ok u := by
  obtain ⟨hreserved, hnames, hmakes⟩ := updated_eq_ok_iff.mp hc
  have hgiven : ∀ name, (p.value? name).isSome → (c.value? name).isSome := by
    intro name h
    obtain ⟨v, hv⟩ := Option.isSome_iff_exists.mp h
    rw [hp name v hv]
    rfl
  have hreserved' : (p.any fun e => e.1 == reservedName) = false := by
    rw [← Bool.not_eq_true, any_reserved_iff] at hreserved ⊢
    exact fun h => hreserved (hgiven _ h)
  have hnames' : unknownNames p = [] := by
    rw [List.eq_nil_iff_forall_not_mem] at hnames ⊢
    intro name hname
    obtain ⟨h, hnone⟩ := mem_unknownNames_iff.mp hname
    exact hnames name (mem_unknownNames_iff.mpr ⟨hgiven name h, hnone⟩)
  have hpasses := Settings.exists_toStyle_iff.mp ⟨t, hmakes.toStyle_eq⟩
  have hpasses' := Settings.exists_toStyle_iff.mp ⟨s, hs.again.toStyle_eq⟩
  obtain ⟨u, hu⟩ : ∃ u, (s.settings.override p).toStyle = .ok u := by
    rw [Settings.exists_toStyle_iff]
    intro x
    rw [Settings.override_eq]
    cases hv : p.value? x.name with
    | none => exact hpasses' x
    | some v =>
      have hx := hpasses x
      rwa [Settings.override_eq, hp _ _ hv] at hx
  exact ⟨u, updated_eq_ok_iff.mpr ⟨hreserved', hnames', Settings.makes_of_toStyle hu⟩⟩

def updatedAll (s : Style) (rows : List Changes) : Except Fault Style := rows.foldlM updated s

theorem updatedAll_cons (s : Style) (a : Changes) (rows : List Changes) :
    s.updatedAll (a :: rows) = s.updated a >>= fun t => t.updatedAll rows :=
  List.foldlM_cons

theorem updatedAll_concat (s : Style) (rows : List Changes) (a : Changes) :
    s.updatedAll (rows ++ [a]) = s.updatedAll rows >>= fun t => t.updated a := by
  rw [updatedAll, List.foldlM_append]
  simp [updatedAll]

theorem updated_flatten (hs : g.Makes s) (h : s.updatedAll rows = .ok t) :
    s.updated rows.flatten = .ok t := by
  induction rows generalizing g s with
  | nil =>
    cases h
    exact updated_nil hs
  | cons a rows ih =>
    rw [updatedAll_cons] at h
    obtain ⟨u, hu, h⟩ := exists_of_bind_ok h
    rw [List.flatten_cons, ← updated_of_updated hu]
    exact ih (makes_of_updated hu) h

theorem updatedAll_eq (hs : g.Makes s)
    (h : ∀ done, done <+: rows → ∃ t, s.updated done.flatten = .ok t) :
    s.updatedAll rows = s.updated rows.flatten := by
  induction rows using List.reverseRecOn with
  | nil => exact (updated_nil hs).symm
  | append_singleton rows a ih =>
    obtain ⟨t, ht⟩ := h rows (List.prefix_append rows [a])
    have hdone := ih fun done hd => h done (hd.trans (List.prefix_append rows [a]))
    rw [updatedAll_concat, hdone, ht, ok_bind, updated_of_updated ht, List.flatten_append,
      List.flatten_singleton]

theorem updatedAll_perm (hs : g.Makes s) (hd : rows.Pairwise Changes.Disjoint)
    (hp : rows'.Perm rows) (h : s.updatedAll rows = .ok t) : s.updatedAll rows' = .ok t := by
  have hall := updated_flatten hs h
  have hd' : rows'.Pairwise Changes.Disjoint := (hp.pairwise_iff Changes.Disjoint.symm).mpr hd
  have hsame : ∀ name, Changes.value? rows'.flatten name = Changes.value? rows.flatten name := by
    intro name
    apply Option.ext
    intro v
    simp only [Changes.value?_flatten_iff hd, Changes.value?_flatten_iff hd', hp.mem_iff]
  rw [updatedAll_eq hs, updated_congr hsame, hall]
  intro done hdone
  refine exists_updated_of_part hs hall fun name v hv => ?_
  obtain ⟨row, hrow, hv⟩ := Changes.exists_of_value?_flatten hv
  exact (Changes.value?_flatten_iff hd).mpr ⟨row, hp.mem_iff.mp (hdone.subset hrow), hv⟩

end Runs

end Style

end Linework
