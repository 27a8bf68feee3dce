import Linework.Outline.Command
import Linework.Outline.Group

/-!
# Groups as slices

A list is cut into groups of one size by taking every `size`-th member from each of the first
`size` places, and putting the results side by side. What is left over at the end is dropped
without a word, so that a list whose length is a multiple of `size` is needed for nothing to get
lost. The groups of points, curves and arcs are these slices, whether they are counted in numbers
or in points.
-/

set_option autoImplicit false

namespace Linework

variable {β : Type} {size : Nat}

def stride (size : Nat) : Nat → List β → List β
  | _, [] => []
  | 0, b :: bs => b :: stride size (size - 1) bs
  | i + 1, _ :: bs => stride size i bs

/-- The first members of some lists, then the second ones, up to where one of the lists ends. -/
def zipAll : List (List β) → List (List β)
  | [] => []
  | [bs] => bs.map fun b => [b]
  | bs :: cs :: rest => List.zipWith List.cons bs (zipAll (cs :: rest))

def slices (size : Nat) (bs : List β) : List (List β) :=
  zipAll ((List.range size).map fun i => stride size i bs)

section Strides

theorem getElem?_stride (hs : 0 < size) (i j : Nat) (bs : List β) :
    (stride size i bs)[j]? = bs[i + j * size]? := by
  induction bs generalizing i j with
  | nil => simp [stride]
  | cons b bs ih =>
    match i, j with
    | 0, 0 => simp [stride]
    | 0, j + 1 =>
      have hplace : 0 + (j + 1) * size = size - 1 + j * size + 1 := by
        rw [Nat.add_mul]
        omega
      rw [stride, List.getElem?_cons_succ, ih, hplace, List.getElem?_cons_succ]
    | i + 1, j =>
      rw [stride, ih, Nat.add_right_comm, List.getElem?_cons_succ]

theorem stride_append {g : List β} (hg : g.length = size) {i : Nat} (hi : i < g.length)
    (bs : List β) : stride size i (g ++ bs) = g[i] :: stride size i bs := by
  have hs : 0 < size := by omega
  apply List.ext_getElem?
  intro j
  rw [getElem?_stride hs]
  cases j with
  | zero => simp [List.getElem?_append_left hi]
  | succ j =>
    have hplace : i + (j + 1) * size = g.length + (i + j * size) := by
      rw [Nat.add_mul, hg]
      omega
    rw [List.getElem?_cons_succ, getElem?_stride hs, hplace, List.getElem?_append_right (by omega),
      Nat.add_sub_cancel_left]

theorem stride_of_length_le {i : Nat} (hs : 0 < size) {bs : List β} (h : bs.length ≤ i) :
    stride size i bs = [] := by
  apply List.ext_getElem?
  intro j
  rw [getElem?_stride hs, List.getElem?_eq_none (by omega), List.getElem?_nil]

theorem zipAll_zipWith_cons : ∀ (g : List β) (ts : List (List β)), g ≠ [] →
    g.length = ts.length → zipAll (List.zipWith List.cons g ts) = g :: zipAll ts
  | [_], [_], _, _ => rfl
  | b :: c :: g, t :: u :: ts, _, h => by
    have ih := zipAll_zipWith_cons (c :: g) (u :: ts) (List.cons_ne_nil c g) (by simpa using h)
    rw [List.zipWith_cons_cons] at ih
    rw [List.zipWith_cons_cons, List.zipWith_cons_cons, zipAll, ih, zipAll]
    rfl

theorem zipAll_of_nil_mem : ∀ {ts : List (List β)}, [] ∈ ts → zipAll ts = []
  | [t], h => by
    rw [← List.mem_singleton.mp h]
    rfl
  | t :: u :: ts, h => by
    rcases List.mem_cons.mp h with rfl | h
    · rfl
    · rw [zipAll, zipAll_of_nil_mem h, List.zipWith_nil_right]

end Strides

section Slices

theorem slices_append (hs : 0 < size) {g : List β} (hg : g.length = size) (bs : List β) :
    slices size (g ++ bs) = g :: slices size bs := by
  have hne : g ≠ [] := by
    rintro rfl
    simp [← hg] at hs
  have hstrides : (List.range size).map (fun i => stride size i (g ++ bs)) =
      List.zipWith List.cons g ((List.range size).map fun i => stride size i bs) := by
    apply List.ext_getElem
    · simp [hg]
    · intro i _ hi
      have hig : i < g.length := by
        rw [List.length_zipWith] at hi
        omega
      simp [stride_append hg hig]
  rw [slices, hstrides, zipAll_zipWith_cons g _ hne (by simp [hg]), slices]

theorem slices_of_short {bs : List β} (h : bs.length < size) : slices size bs = [] := by
  have hlast : stride size (size - 1) bs = [] := stride_of_length_le (by omega) (by omega)
  apply zipAll_of_nil_mem
  rw [← hlast]
  exact List.mem_map_of_mem (List.mem_range.mpr (by omega))

/-- Whatever takes off one group after the other and drops what is too short is slicing. -/
theorem eq_slices {f : List β → List (List β)} (hs : 0 < size)
    (hshort : ∀ bs, bs.length < size → f bs = [])
    (happend : ∀ g bs, g.length = size → f (g ++ bs) = g :: f bs) (bs : List β) :
    f bs = slices size bs := by
  by_cases h : bs.length < size
  · rw [hshort bs h, slices_of_short h]
  · have hg : (bs.take size).length = size := by
      rw [List.length_take]
      omega
    have ih := eq_slices hs hshort happend (bs.drop size)
    rw [← List.take_append_drop size bs, happend _ _ hg, slices_append hs hg, ih]
termination_by bs.length
decreasing_by
  rw [List.length_drop]
  omega

theorem groups_induction {n : Nat} {motive : List β → Prop}
    (nil : motive [])
    (append : ∀ g rest, g.length = n → rest.length % n = 0 → motive rest → motive (g ++ rest))
    (bs : List β) (h : bs.length % n = 0) : motive bs := by
  obtain ⟨k, hk⟩ := Nat.dvd_of_mod_eq_zero h
  induction k generalizing bs with
  | zero =>
    rw [Nat.mul_zero, List.length_eq_zero_iff] at hk
    rw [hk]
    exact nil
  | succ k ih =>
    have hdrop : (bs.drop n).length = n * k := by
      rw [List.length_drop, hk, Nat.mul_succ, Nat.add_sub_cancel]
    have hwhole : (bs.drop n).length % n = 0 := by rw [hdrop, Nat.mul_mod_right]
    rw [← List.take_append_drop n bs]
    apply append _ _ _ hwhole (ih _ hwhole hdrop)
    rw [List.length_take, hk, Nat.mul_succ]
    exact Nat.min_eq_left (Nat.le_add_left n _)

/-- A list cut into groups of one size, with nothing lost. -/
structure Cuts (size : Nat) (bs : List β) (gs : List (List β)) : Prop where
  count : gs.length = bs.length / size
  sizes : ∀ g ∈ gs, g.length = size
  whole : gs.flatten = bs

theorem cuts_slices (hs : 0 < size) (bs : List β) (h : bs.length % size = 0) :
    Cuts size bs (slices size bs) := by
  refine groups_induction (motive := fun bs => Cuts size bs (slices size bs)) ?_ ?_ bs h
  · rw [slices_of_short (by simpa using hs)]
    exact ⟨by simp, by simp, rfl⟩
  · intro g rest hg _ ih
    rw [slices_append hs hg]
    refine ⟨?_, List.forall_mem_cons.mpr ⟨hg, ih.sizes⟩, ?_⟩
    · rw [List.length_cons, List.length_append, hg, ih.count, Nat.add_div_left _ hs]
    · rw [List.flatten_cons, ih.whole]

theorem Cuts.ne_nil {bs : List β} {gs : List (List β)} (h : Cuts size bs gs) (hbs : bs ≠ []) :
    gs ≠ [] := by
  rintro rfl
  exact hbs h.whole.symm

end Slices

section Points

namespace Point

def coordinates (p : Point β) : List β := [p.x, p.y]

def pairAt? (xs : List β) (j : Nat) : Option (Point β) := do
  return ⟨← xs[2 * j]?, ← xs[2 * j + 1]?⟩

/-- The points whose coordinates are found at the places `0` and `1`, `2` and `3`, and so on; there
are none if a place is missing. -/
def pairsAt? (xs : List β) : Option (List (Point β)) :=
  (List.range ((xs.length + 1) / 2)).mapM (pairAt? xs)

theorem pairsAt?_cons (x y : β) (rest : List β) :
    pairsAt? (x :: y :: rest) = (pairsAt? rest).map (⟨x, y⟩ :: ·) := by
  have hlength : ((x :: y :: rest).length + 1) / 2 = (rest.length + 1) / 2 + 1 := by
    rw [List.length_cons, List.length_cons]
    omega
  have hfirst : pairAt? (x :: y :: rest) 0 = some ⟨x, y⟩ := rfl
  have hrest : pairAt? (x :: y :: rest) ∘ Nat.succ = pairAt? rest := rfl
  rw [pairsAt?, hlength, List.range_succ_eq_map, List.mapM_cons, List.mapM_map, hfirst, hrest,
    pairsAt?]
  cases (List.range ((rest.length + 1) / 2)).mapM (pairAt? rest) <;> rfl

theorem pairsAt?_eq : ∀ xs : List β,
    pairsAt? xs = if xs.length % 2 = 0 then some (pairs xs) else none
  | [] => by simp [pairsAt?, pairs]
  | [x] => by simp [pairsAt?, pairAt?]
  | x :: y :: rest => by
    have hmod : (x :: y :: rest).length % 2 = rest.length % 2 := Nat.add_mod_right rest.length 2
    rw [pairsAt?_cons, pairsAt?_eq rest, hmod, pairs]
    split <;> rfl

theorem pairs_append {g : List β} (h : g.length % 2 = 0) (bs : List β) :
    pairs (g ++ bs) = pairs g ++ pairs bs := by
  refine groups_induction (motive := fun g => pairs (g ++ bs) = pairs g ++ pairs bs) rfl ?_ g h
  intro g rest hg _ ih
  match g, hg with
  | [x, y], _ => exact congrArg (List.cons ⟨x, y⟩) ih

theorem flatMap_coordinates_pairs {g : List β} (h : g.length % 2 = 0) :
    (pairs g).flatMap coordinates = g := by
  refine groups_induction (motive := fun g => (pairs g).flatMap coordinates = g) rfl ?_ g h
  intro g rest hg _ ih
  match g, hg with
  | [x, y], _ => exact congrArg (fun bs => x :: y :: bs) ih

theorem length_pairs : ∀ xs : List β, (pairs xs).length = xs.length / 2
  | [] | [_] => by simp [pairs]
  | x :: y :: rest => by
    rw [pairs, List.length_cons, length_pairs rest]
    exact (Nat.add_div_right rest.length (by decide)).symm

theorem slices_pairs {m : Nat} (hm : 0 < m) (xs : List β) :
    (slices m (pairs xs)).map (List.flatMap coordinates) = slices (2 * m) xs := by
  refine eq_slices (f := fun xs => (slices m (pairs xs)).map (List.flatMap coordinates))
    (by omega) ?_ ?_ xs
  · intro bs h
    have hshort : (pairs bs).length < m := by
      rw [length_pairs]
      omega
    simp only [slices_of_short hshort, List.map_nil]
  · intro g bs hg
    have heven : g.length % 2 = 0 := by rw [hg, Nat.mul_mod_right]
    have hpairs : (pairs g).length = m := by
      rw [length_pairs, hg, Nat.mul_div_cancel_left m Nat.two_pos]
    simp only [pairs_append heven, slices_append hm hpairs, List.map_cons,
      flatMap_coordinates_pairs heven]

end Point

theorem CubicTo.length_group : ∀ zs : List (Point β), (group zs).length = zs.length / 3
  | [] | [_] | [_, _] => by simp [group]
  | a :: b :: p :: rest => by
    rw [group, List.length_cons, length_group rest]
    exact (Nat.add_div_right rest.length (by decide)).symm

theorem QuadraticTo.length_group : ∀ zs : List (Point β), (group zs).length = zs.length / 2
  | [] | [_] => by simp [group]
  | a :: p :: rest => by
    rw [group, List.length_cons, length_group rest]
    exact (Nat.add_div_right rest.length (by decide)).symm

end Points

end Linework
