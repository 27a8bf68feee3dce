import Linework.Proofs.Style.Making
import Linework.Proofs.Text.Hexadecimal

/-!
# Reading a colour back

A colour that is given by three whole numbers is kept as their digits, one after another. Reading
it back cuts the digits into thirds, which need not be where one component ends and the next one
begins: a third that lies within a wider component is never read as that component. So the
components are read back exactly if all of them are equally wide, and there are six digits exactly
if each of them is a byte.
-/

set_option autoImplicit false

namespace Linework

namespace Color

open Text (hexInt? isHexDigit upperDigits upperHex)

/-- A mark and six digits. -/
def IsSixDigit (text : String) : Prop :=
  ∃ digits : List Char, text.toList = '#' :: digits ∧ digits.length = 6 ∧
    ∀ d ∈ digits, isHexDigit d

def IsByte (n : ℤ) : Prop := 0 ≤ n ∧ n ≤ 255

section Component

variable {n : ℤ} {m : ℕ} {piece : List Char}

theorem component_natural (m : ℕ) :
    component m = List.replicate (2 - (upperHex m).length) '0' ++ upperHex m := by
  have hn : ¬ (m : ℤ) < 0 := by omega
  rw [component, if_neg hn, Int.toNat_natCast, Text.hexPadded, List.map_append, List.map_replicate,
    upperHex, List.length_map]
  rfl

theorem component_negative (hm : 0 < m) : component (-m) = '-' :: upperHex m := by
  have hn : -(m : ℤ) < 0 := by omega
  have hone : 1 - (Nat.toDigits 16 m).length = 0 := by
    have := List.length_pos_iff.mpr (Nat.toDigits_ne_nil (n := m) (b := 16))
    omega
  rw [component, if_pos hn, Int.natAbs_neg, Int.natAbs_natCast, Text.hexPadded, hone, upperHex]
  rfl

theorem natural_or_negative (n : ℤ) : (∃ m : ℕ, n = m) ∨ ∃ m : ℕ, 0 < m ∧ n = -m := by
  rcases le_or_gt 0 n with hn | hn
  · exact .inl ⟨n.toNat, by omega⟩
  · exact .inr ⟨n.natAbs, by omega, by omega⟩

theorem two_le_length_component (n : ℤ) : 2 ≤ (component n).length := by
  obtain ⟨m, rfl⟩ | ⟨m, hm, rfl⟩ := natural_or_negative n
  · rw [component_natural, List.length_append, List.length_replicate]
    omega
  · have := List.length_pos_iff.mpr (Text.upperHex_ne_nil m)
    rw [component_negative hm, List.length_cons]
    omega

theorem mem_component_natural {c : Char} (hc : c ∈ component m) : c ∈ upperDigits := by
  rw [component_natural, List.mem_append, List.mem_replicate] at hc
  rcases hc with ⟨-, rfl⟩ | hc
  · decide
  · exact (Text.upperHex_spec m).1 c hc

theorem mem_component {c : Char} (hc : c ∈ component n) : c = '-' ∨ c ∈ upperDigits := by
  obtain ⟨m, rfl⟩ | ⟨m, hm, rfl⟩ := natural_or_negative n
  · exact .inr (mem_component_natural hc)
  · rw [component_negative hm, List.mem_cons] at hc
    exact hc.imp_right ((Text.upperHex_spec m).1 c)

theorem hexInt?_component (n : ℤ) : hexInt? (component n) = some n := by
  obtain ⟨m, rfl⟩ | ⟨m, hm, rfl⟩ := natural_or_negative n
  · have hlen := two_le_length_component m
    have hne : component m ≠ [] := List.length_pos_iff.mp (by omega)
    rw [Text.hexInt?_upper hne fun c hc => mem_component_natural hc, component_natural,
      Text.hexNumber_zeros_append, (Text.upperHex_spec m).2]
  · rw [component_negative hm, Text.hexInt?_minus (Text.upperHex_ne_nil m) (Text.upperHex_spec m).1,
      (Text.upperHex_spec m).2]

/-- A part of a component that is shorter than it is not read as the component. -/
theorem hexInt?_ne_of_infix (hp : piece <:+: component n) (hlong : 1 < piece.length)
    (hshort : piece.length < (component n).length) : hexInt? piece ≠ some n := by
  have hne : piece ≠ [] := List.length_pos_iff.mp (by omega)
  obtain ⟨m, rfl⟩ | ⟨m, hm, rfl⟩ := natural_or_negative n
  · have hdigits : ∀ c ∈ piece, c ∈ upperDigits :=
      fun c hc => mem_component_natural (hp.subset hc)
    rw [component_natural, List.length_append, List.length_replicate] at hshort
    have hless := Text.hexNumber_lt_of_shorter (n := m) hne hdigits (by omega)
    rw [Text.hexInt?_upper hne hdigits]
    simp only [ne_eq, Option.some.injEq]
    omega
  · -- A part with the sign has fewer digits after it, and one without it is not below zero.
    obtain ⟨hdigits, -⟩ := Text.upperHex_spec m
    rw [component_negative hm] at hp hshort
    rcases List.infix_cons_iff.mp hp with hp | hp
    · obtain ⟨c, rest, rfl⟩ := List.exists_cons_of_ne_nil hne
      obtain ⟨rfl, hrest⟩ := List.cons_prefix_cons.mp hp
      have hne' : rest ≠ [] := List.length_pos_iff.mp (by simpa using hlong)
      have hdigits' : ∀ c ∈ rest, c ∈ upperDigits := fun c hc => hdigits c (hrest.subset hc)
      have hless := Text.hexNumber_lt_of_shorter (n := m) hne' hdigits' (by simpa using hshort)
      rw [Text.hexInt?_minus hne' hdigits']
      simp only [ne_eq, Option.some.injEq]
      omega
    · rw [Text.hexInt?_upper hne fun c hc => hdigits c (hp.subset hc)]
      simp only [ne_eq, Option.some.injEq]
      omega

theorem isByte_iff :
    IsByte n ↔ (component n).length = 2 ∧ ∀ c ∈ component n, isHexDigit c := by
  obtain ⟨m, rfl⟩ | ⟨m, hm, rfl⟩ := natural_or_negative n
  · have hdigits : ∀ c ∈ component m, isHexDigit c :=
      fun c hc => Text.isHexDigit_upper (mem_component_natural hc)
    have hlen := Text.length_upperHex_le_iff (n := m) (k := 2) (by norm_num)
    rw [and_iff_left hdigits, component_natural, List.length_append, List.length_replicate, IsByte]
    omega
  · have hsign : ¬ ∀ c ∈ component (-m), isHexDigit c := by
      rw [component_negative hm]
      exact fun h => absurd (h '-' List.mem_cons_self) (by decide)
    refine iff_of_false (fun h => ?_) fun h => hsign h.2
    have := h.1
    omega

end Component

section Pieces

variable {r g b : ℤ} {k : ℕ} {s : List Char}

theorem readPiece_eq_ok_iff {piece : List Char} {n : ℤ} :
    readPiece piece = .ok n ↔ hexInt? piece = some n := by
  rw [readPiece]
  cases hexInt? piece with
  | none => simp
  | some m => simp

theorem mapM_readPiece_eq_ok_iff {pieces : List (List Char)} {c : List ℤ} :
    pieces.mapM readPiece = .ok c ↔ List.Forall₂ (fun p n => hexInt? p = some n) pieces c := by
  induction pieces generalizing c with
  | nil => cases c <;> simp [pure, Except.pure]
  | cons p pieces ih =>
    rw [List.mapM_cons]
    constructor
    · intro h
      obtain ⟨n, hn, h⟩ := exists_of_bind_ok h
      obtain ⟨rest, hrest, h⟩ := exists_of_bind_ok h
      cases h
      exact .cons (readPiece_eq_ok_iff.mp hn) (ih.mp hrest)
    · rintro (_ | ⟨hn, hrest⟩)
      rw [readPiece_eq_ok_iff.mpr hn, ok_bind, ih.mpr hrest]
      rfl

theorem length_eq_of_length_cut (hk : s.length / 3 = k) (hlong : 1 < k)
    (h : (cut k s).length = 3) : s.length = 3 * k := by
  rw [cut, List.length_map, List.length_range] at h
  -- with anything left over there would be a fourth piece
  by_contra hne
  have hfour : 4 * k ≤ s.length + k - 1 := by omega
  have := (Nat.le_div_iff_mul_le (by omega)).mpr hfour
  omega

theorem cut_thirds (hk : 0 < k) (hs : s.length = 3 * k) :
    cut k s = [s.take k, (s.drop k).take k, (s.drop (2 * k)).take k] := by
  have hcount : (s.length + k - 1) / k = 3 := by
    rw [Nat.div_eq_iff hk]
    omega
  rw [cut, hcount]
  simp [List.range_succ]

theorem infix_of_within {front part : List Char} (back : List Char) {start : ℕ}
    (hfront : front.length ≤ start) (hback : start + k ≤ front.length + part.length) :
    ((front ++ part ++ back).drop start).take k <:+: part := by
  have hcut : ((front ++ part ++ back).drop start).take k =
      (part.drop (start - front.length)).take k := by
    rw [List.append_assoc, List.drop_append, List.drop_of_length_le hfront, List.nil_append,
      List.drop_append_of_le_length (by omega), List.take_append_of_le_length]
    rw [List.length_drop]
    omega
  rw [hcut]
  exact (List.take_prefix _ _).isInfix.trans (List.drop_suffix _ _).isInfix

/-- If a third that lies within a component is read as that component, it is all of it. -/
theorem width_le_of_within (front back : List Char) {start : ℕ} {n : ℤ} (hk : 1 < k)
    (hfront : front.length ≤ start) (hback : start + k ≤ front.length + (component n).length)
    (hread : hexInt? (((front ++ component n ++ back).drop start).take k) = some n) :
    (component n).length ≤ k := by
  have hp := infix_of_within back hfront hback
  have hlen : (((front ++ component n ++ back).drop start).take k).length = k := by
    simp only [List.length_take, List.length_drop, List.length_append]
    omega
  by_contra hwide
  exact hexInt?_ne_of_infix hp (by omega) (by omega) hread

theorem components_ofComponents (r g b : ℤ) :
    components (String.ofList (ofComponents r g b)) =
      let s := component r ++ component g ++ component b
      (cut (s.length / 3) s).mapM readPiece := by
  have hr := two_le_length_component r
  have hg := two_le_length_component g
  have hb := two_le_length_component b
  have hhead : (component r ++ component g ++ component b).dropWhile (· == '#') =
      component r ++ component g ++ component b := by
    obtain ⟨c, rest, hc⟩ := List.exists_cons_of_length_pos (l := component r) (by omega)
    have hne : c ≠ '#' := by
      rintro rfl
      rcases mem_component (hc ▸ List.mem_cons_self : '#' ∈ component r) with h | h
      · cases h
      · exact Text.ne_of_upper h (by simp)
    simp [hc, hne]
  have hmany : ¬ (component r ++ component g ++ component b).length / 3 = 0 := by
    simp only [List.length_append]
    omega
  rw [components, String.toList_ofList, ofComponents, List.cons_append, List.cons_append,
    List.dropWhile_cons_of_pos (by rfl), hhead, if_neg hmany]

theorem widths_eq_of_reads_back
    (h : components (String.ofList (ofComponents r g b)) = .ok [r, g, b]) :
    (component r).length = (component g).length ∧
      (component g).length = (component b).length := by
  have hr := two_le_length_component r
  have hg := two_le_length_component g
  have hb := two_le_length_component b
  rw [components_ofComponents, mapM_readPiece_eq_ok_iff] at h
  have hlen : (component r ++ component g ++ component b).length =
      (component r).length + (component g).length + (component b).length := by
    rw [List.length_append, List.length_append]
  have hthirds := length_eq_of_length_cut rfl (by omega) h.length_eq
  generalize (component r ++ component g ++ component b).length / 3 = k at h hthirds
  have hk : 1 < k := by omega
  rw [cut_thirds (by omega) hthirds] at h
  simp only [List.forall₂_cons, List.forall₂_nil_left_iff, and_true] at h
  obtain ⟨hread, hread', hread''⟩ := h
  -- The first and the last third cannot lie within a wider component, so the middle one would.
  have hr' : (component r).length ≤ k := by
    by_contra hwide
    refine hwide (width_le_of_within [] (component g ++ component b) hk (Nat.zero_le 0) ?_ ?_)
    · rw [List.length_nil]
      omega
    · rwa [List.drop_zero, List.nil_append, ← List.append_assoc]
  have hb' : (component b).length ≤ k := by
    by_contra hwide
    rw [← List.append_nil (component r ++ component g ++ component b)] at hread''
    refine hwide (width_le_of_within (component r ++ component g) [] hk ?_ ?_ hread'')
    · rw [List.length_append]
      omega
    · rw [List.length_append]
      omega
  have hg' : (component g).length ≤ k :=
    width_le_of_within (component r) (component b) hk hr' (by omega) hread'
  omega

theorem reads_back_of_widths_eq (hrg : (component r).length = (component g).length)
    (hgb : (component g).length = (component b).length) :
    components (String.ofList (ofComponents r g b)) = .ok [r, g, b] := by
  have hg := two_le_length_component g
  rw [components_ofComponents, mapM_readPiece_eq_ok_iff]
  generalize hs : component r ++ component g ++ component b = s
  have hlen : s.length = 3 * (component g).length := by
    rw [← hs, List.length_append, List.length_append]
    omega
  have hk : s.length / 3 = (component g).length := by omega
  have hfirst : s.take (component g).length = component r := by
    rw [← hs, List.append_assoc, List.take_left' hrg]
  have hmiddle : (s.drop (component g).length).take (component g).length = component g := by
    rw [← hs, List.append_assoc, List.drop_left' hrg, List.take_left]
  have hlast : (s.drop (2 * (component g).length)).take (component g).length = component b := by
    rw [← hs, List.drop_left', List.take_of_length_le hgb.ge]
    rw [List.length_append]
    omega
  rw [hk, cut_thirds (by omega) hlen, hfirst, hmiddle, hlast]
  exact .cons (hexInt?_component r) (.cons (hexInt?_component g) (.cons (hexInt?_component b) .nil))

theorem reads_back_iff :
    components (String.ofList (ofComponents r g b)) = .ok [r, g, b] ↔
      (component r).length = (component g).length ∧
        (component g).length = (component b).length :=
  ⟨widths_eq_of_reads_back, fun h => reads_back_of_widths_eq h.1 h.2⟩

theorem isSixDigit_iff :
    IsSixDigit (String.ofList (ofComponents r g b)) ↔ IsByte r ∧ IsByte g ∧ IsByte b := by
  have hr := two_le_length_component r
  have hg := two_le_length_component g
  have hb := two_le_length_component b
  simp only [IsSixDigit, String.toList_ofList, ofComponents, List.cons_append, List.cons.injEq,
    true_and, isByte_iff]
  constructor
  · rintro ⟨_, rfl, hlen, hdigits⟩
    simp only [List.length_append] at hlen
    simp only [List.forall_mem_append] at hdigits
    obtain ⟨⟨hdr, hdg⟩, hdb⟩ := hdigits
    exact ⟨⟨by omega, hdr⟩, ⟨by omega, hdg⟩, by omega, hdb⟩
  · rintro ⟨⟨hr, hdr⟩, ⟨hg, hdg⟩, hb, hdb⟩
    refine ⟨_, rfl, ?_, ?_⟩
    · simp [hr, hg, hb]
    · simp only [List.forall_mem_append]
      exact ⟨⟨hdr, hdg⟩, hdb⟩

theorem reads_back_of_isByte (hr : IsByte r) (hg : IsByte g) (hb : IsByte b) :
    components (String.ofList (ofComponents r g b)) = .ok [r, g, b] := by
  rw [reads_back_iff, (isByte_iff.mp hr).1, (isByte_iff.mp hg).1, (isByte_iff.mp hb).1]
  exact ⟨rfl, rfl⟩

end Pieces

end Color

namespace Settings

open Color (IsByte IsSixDigit component components)

variable {g : Settings} {s : Style} {x : StyleAttribute}

theorem put_of_color (hx : x = .fillStyle ∨ x = .strokeStyle) (v : Value) (y : StyleAttribute) :
    y = .fillStyle ∨ y = .strokeStyle ∨ g.put x v y = g y := by
  by_cases hyx : y = x
  · rw [hyx]
    exact hx.imp_right .inl
  · exact .inr (.inr (if_neg hyx))

theorem Makes.toStyle_put_error (hs : g.Makes s) (hx : x = .fillStyle ∨ x = .strokeStyle)
    {v : Value} {e : Fault} (hv : color v = .error e) : (g.put x v).toStyle = .error e := by
  rw [hs.toStyle_recolored (put_of_color hx v)]
  rcases hx with rfl | rfl
  · have hfill : g.put .fillStyle v .fillStyle = v := rfl
    rw [hfill, hv, error_bind]
  · have hfill : g.put .strokeStyle v .fillStyle = g .fillStyle := rfl
    have hstroke : g.put .strokeStyle v .strokeStyle = v := rfl
    rw [hfill, hstroke, hs.fill, ok_bind, hv, error_bind]

theorem Makes.exists_toStyle_put (hs : g.Makes s) (hx : x = .fillStyle ∨ x = .strokeStyle)
    {v u : Value} (hv : color v = .ok u) :
    ∃ t, (g.put x v).toStyle = .ok t ∧ t.settings x = u := by
  rw [hs.toStyle_recolored (put_of_color hx v)]
  rcases hx with rfl | rfl
  · have hfill : g.put .fillStyle v .fillStyle = v := rfl
    have hstroke : g.put .fillStyle v .strokeStyle = g .strokeStyle := rfl
    rw [hfill, hstroke, hv, ok_bind, hs.stroke]
    exact ⟨_, rfl, rfl⟩
  · have hfill : g.put .strokeStyle v .fillStyle = g .fillStyle := rfl
    have hstroke : g.put .strokeStyle v .strokeStyle = v := rfl
    rw [hfill, hstroke, hs.fill, ok_bind, hv]
    exact ⟨_, rfl, rfl⟩

theorem color_of_length_ne {c : List ℤ} (hc : c.length ≠ 3) :
    color (.list (c.map .int)) = .error .wrongType := by
  match c with
  | [] | [_] | [_, _] | _ :: _ :: _ :: _ :: _ => rfl
  | [_, _, _] => exact absurd rfl hc

/-- A list of whole numbers is taken for a colour exactly if there are three of them, whatever these
are. The colour has six digits exactly if all of them are bytes, and gives them back exactly if
they are equally wide, as bytes are. -/
theorem toStyle_put_components (hs : g.toStyle = .ok s) (hx : x = .fillStyle ∨ x = .strokeStyle)
    (c : List ℤ) :
    (c.length ≠ 3 → (g.put x (.list (c.map .int))).toStyle = .error .wrongType) ∧
      (c.length = 3 →
        ∃ t text, (g.put x (.list (c.map .int))).toStyle = .ok t ∧ t.settings x = .text text ∧
          (IsSixDigit text ∧ components text = .ok c ↔ ∀ n ∈ c, IsByte n) ∧
          (IsSixDigit text ↔ ∀ n ∈ c, IsByte n) ∧
          (components text = .ok c ↔ ∃ width, ∀ n ∈ c, (component n).length = width)) := by
  have hmade := makes_of_toStyle hs
  refine ⟨fun hc => hmade.toStyle_put_error hx (color_of_length_ne hc), fun hc => ?_⟩
  obtain ⟨red, green, blue, rfl⟩ := List.length_eq_three.mp hc
  obtain ⟨t, ht, htext⟩ := hmade.exists_toStyle_put hx
    (v := .list ([red, green, blue].map .int))
    (u := .text (String.ofList (Color.ofComponents red green blue))) rfl
  have hsix : IsSixDigit (String.ofList (Color.ofComponents red green blue)) ↔
      ∀ n ∈ [red, green, blue], IsByte n := by
    simpa using Color.isSixDigit_iff
  refine ⟨t, _, ht, htext, ⟨fun h => hsix.mp h.1, fun h => ⟨hsix.mpr h, ?_⟩⟩, hsix, ?_⟩
  · simp only [List.forall_mem_cons] at h
    exact Color.reads_back_of_isByte h.1 h.2.1 h.2.2.1
  · rw [Color.reads_back_iff]
    constructor
    · rintro ⟨hrg, hgb⟩
      refine ⟨(component green).length, ?_⟩
      simp [hrg, hgb]
    · rintro ⟨width, h⟩
      simp only [List.forall_mem_cons] at h
      exact ⟨h.1.trans h.2.1.symm, h.2.1.trans h.2.2.1.symm⟩

theorem toStyle_put_components_orange :
    let g := Style.default.settings
    g.toStyle = .ok Style.default ∧
      (g.put .fillStyle (.list ([255, 128].map .int))).toStyle = .error .wrongType ∧
      ∃ t text, (g.put .fillStyle (.list ([255, 128, 0].map .int))).toStyle = .ok t ∧
        t.settings .fillStyle = .text text ∧ IsSixDigit text ∧
          components text = .ok [255, 128, 0] := by
  intro g
  have hg : g.toStyle = .ok Style.default := rfl
  obtain ⟨t, text, ht, htext, hiff, -, -⟩ :=
    (toStyle_put_components (x := .fillStyle) hg (.inl rfl) [255, 128, 0]).2 rfl
  have hbytes : ∀ n ∈ [255, 128, 0], IsByte n := by simp [IsByte]
  exact ⟨hg, (toStyle_put_components (x := .fillStyle) hg (.inl rfl) [255, 128]).1 (by decide),
    t, text, ht, htext, hiff.mpr hbytes⟩

theorem not_six_digits_above_byte :
    ¬ ∀ (x : StyleAttribute) (c : List ℤ) (t : Style), x = .fillStyle ∨ x = .strokeStyle →
      (Style.default.settings.put x (.list (c.map .int))).toStyle = .ok t →
        ∃ text, t.settings x = .text text ∧ IsSixDigit text ∧ components text = .ok c := by
  intro h
  obtain ⟨text, htext, hsix, -⟩ := h .fillStyle [256, 0, 0] _ (.inl rfl) rfl
  cases htext
  obtain ⟨hred, -, -⟩ := Color.isSixDigit_iff.mp hsix
  exact absurd hred.2 (by decide)

end Settings

end Linework
