import Linework.Canvas.Path
import Linework.Proofs.Canvas.Calls
import Linework.Proofs.Number.Alike
import Linework.Proofs.Outline.Slices

/-!
# The absolute arguments of a relative command

The arguments of a relative command come in groups. Every group is taken from the running point,
which is added to its coordinates, and the running point goes on to where the group ends then. The
rest of a group, such as the radii of an arc, is taken as it is.
-/

set_option autoImplicit false

namespace Linework

open Outline (Verb)

/-- What an argument of a group is: a number in itself, or a coordinate along an axis. -/
inductive Slot where
  | plain
  | across
  | down

namespace Slot

def ofVerb : Verb → List Slot
  | .move | .line | .smoothQuadratic => [across, down]
  | .horizontal => [across]
  | .vertical => [down]
  | .cubic => [across, down, across, down, across, down]
  | .smoothCubic | .quadratic => [across, down, across, down]
  | .arc => [plain, plain, plain, plain, plain, across, down]
  | .close => []

theorem length_ofVerb (v : Verb) : (ofVerb v).length = v.groupSize := by
  cases v <;> rfl

end Slot

section Absolute

variable {α : Type} [Scalar α]

def Argument.plus (x : α) (a : Argument α) : Argument α :=
  match a.real with
  | .ok y => .number (x + y)
  | .error _ => a

theorem Argument.plus_of_real {x y : α} {a : Argument α} (h : a.real = .ok y) :
    a.plus x = .number (x + y) := by
  rw [plus, h]

namespace Slot

def takeFrom (z : Point α) : Slot → Argument α → Argument α
  | plain, a => a
  | across, a => a.plus z.x
  | down, a => a.plus z.y

def leadFrom (z : Point α) (s : Slot) (a : Argument α) : Point α :=
  match s, a with
  | across, .number x => ⟨x, z.y⟩
  | down, .number y => ⟨z.x, y⟩
  | _, _ => z

def endFrom : Point α → List Slot → List (Argument α) → Point α
  | z, s :: slots, a :: as => endFrom (s.leadFrom z a) slots as
  | z, _, _ => z

end Slot

/-- The arguments of the absolute command for those of a relative one at a point. -/
def absolute (v : Verb) (z : Point α) : List (Argument α) → List (Argument α)
  | [] => []
  | a :: rest =>
    let group := List.zipWith (Slot.takeFrom z) (Slot.ofVerb v) (a :: rest)
    group ++ absolute v (Slot.endFrom z (Slot.ofVerb v) group) (rest.drop (v.groupSize - 1))
termination_by as => as.length
decreasing_by simp

theorem absolute_nil (v : Verb) (z : Point α) : absolute v z [] = [] := by
  rw [absolute]

theorem absolute_append {v : Verb} {slots : List Slot} (hv : Slot.ofVerb v = slots)
    {g : List (Argument α)} (hg : slots.length = g.length) (hne : g ≠ []) (z : Point α)
    (rest : List (Argument α)) :
    absolute v z (g ++ rest) =
      List.zipWith (Slot.takeFrom z) slots g ++
        absolute v (Slot.endFrom z slots (List.zipWith (Slot.takeFrom z) slots g)) rest := by
  have happ : List.zipWith (Slot.takeFrom z) (slots ++ []) (g ++ rest) =
      List.zipWith (Slot.takeFrom z) slots g ++ List.zipWith (Slot.takeFrom z) [] rest :=
    List.zipWith_append hg
  rw [List.append_nil, List.zipWith_nil_left, List.append_nil] at happ
  cases g with
  | nil => exact absurd rfl hne
  | cons a g =>
    have hdrop : (g ++ rest).drop (v.groupSize - 1) = rest := by
      rw [← Slot.length_ofVerb, hv, hg, List.length_cons, Nat.add_sub_cancel, List.drop_left]
    rw [List.cons_append] at happ ⊢
    rw [absolute, hv, happ, hdrop]

theorem length_absolute {v : Verb} (hv : v ≠ .close) {as : List (Argument α)}
    (h : as.length % v.groupSize = 0) (z : Point α) : (absolute v z as).length = as.length := by
  have hpos := Verb.groupSize_pos hv
  refine groups_induction (motive := fun as => ∀ z, (absolute v z as).length = as.length)
    ?_ ?_ as h z
  · intro z
    rw [absolute_nil]
  · intro g rest hg _ ih z
    have hslots : (Slot.ofVerb v).length = g.length := by rw [Slot.length_ofVerb, hg]
    have hne : g ≠ [] := by
      rintro rfl
      simp [← hg] at hpos
    rw [absolute_append rfl hslots hne, List.length_append, List.length_append, ih,
      List.length_zipWith, hslots, Nat.min_self]

theorem Point.add_eq (p q : Point α) : p + q = ⟨p.x + q.x, p.y + q.y⟩ := rfl

section Shapes

variable {v : Verb} {a a' b b' d d' : Argument α} {x y : α} {p q r : Point α}

theorem absolute_across (hv : Slot.ofVerb v = [.across]) (ha : a.real = .ok x) (z : Point α)
    (rest : List (Argument α)) :
    absolute v z (a :: rest) = .number (z.x + x) :: absolute v ⟨z.x + x, z.y⟩ rest := by
  have h := absolute_append hv (g := [a]) rfl (by simp) z rest
  simpa [Slot.takeFrom, Slot.endFrom, Slot.leadFrom, Argument.plus_of_real ha] using h

theorem absolute_down (hv : Slot.ofVerb v = [.down]) (ha : a.real = .ok y) (z : Point α)
    (rest : List (Argument α)) :
    absolute v z (a :: rest) = .number (z.y + y) :: absolute v ⟨z.x, z.y + y⟩ rest := by
  have h := absolute_append hv (g := [a]) rfl (by simp) z rest
  simpa [Slot.takeFrom, Slot.endFrom, Slot.leadFrom, Argument.plus_of_real ha] using h

theorem absolute_point (hv : Slot.ofVerb v = [.across, .down]) (ha : a.real = .ok p.x)
    (ha' : a'.real = .ok p.y) (z : Point α) (rest : List (Argument α)) :
    absolute v z (a :: a' :: rest) =
      .number (z + p).x :: .number (z + p).y :: absolute v (z + p) rest := by
  have h := absolute_append hv (g := [a, a']) rfl (by simp) z rest
  simpa [Point.add_eq, Slot.takeFrom, Slot.endFrom, Slot.leadFrom, Argument.plus_of_real ha,
    Argument.plus_of_real ha'] using h

theorem absolute_two_points (hv : Slot.ofVerb v = [.across, .down, .across, .down])
    (ha : a.real = .ok p.x) (ha' : a'.real = .ok p.y) (hb : b.real = .ok q.x)
    (hb' : b'.real = .ok q.y) (z : Point α) (rest : List (Argument α)) :
    absolute v z (a :: a' :: b :: b' :: rest) =
      .number (z + p).x :: .number (z + p).y :: .number (z + q).x :: .number (z + q).y ::
        absolute v (z + q) rest := by
  have h := absolute_append hv (g := [a, a', b, b']) rfl (by simp) z rest
  simpa [Point.add_eq, Slot.takeFrom, Slot.endFrom, Slot.leadFrom, Argument.plus_of_real ha,
    Argument.plus_of_real ha', Argument.plus_of_real hb, Argument.plus_of_real hb'] using h

theorem absolute_three_points (ha : a.real = .ok p.x) (ha' : a'.real = .ok p.y)
    (hb : b.real = .ok q.x) (hb' : b'.real = .ok q.y) (hd : d.real = .ok r.x)
    (hd' : d'.real = .ok r.y) (z : Point α) (rest : List (Argument α)) :
    absolute .cubic z (a :: a' :: b :: b' :: d :: d' :: rest) =
      .number (z + p).x :: .number (z + p).y :: .number (z + q).x :: .number (z + q).y ::
        .number (z + r).x :: .number (z + r).y :: absolute .cubic (z + r) rest := by
  have h := absolute_append (v := .cubic) rfl (g := [a, a', b, b', d, d']) rfl (by simp) z rest
  simpa [Point.add_eq, Slot.ofVerb, Slot.takeFrom, Slot.endFrom, Slot.leadFrom,
    Argument.plus_of_real ha, Argument.plus_of_real ha', Argument.plus_of_real hb,
    Argument.plus_of_real hb', Argument.plus_of_real hd, Argument.plus_of_real hd'] using h

theorem absolute_arc (ha : a.real = .ok p.x) (ha' : a'.real = .ok p.y) (rx ry turn large clockwise)
    (z : Point α) (rest : List (Argument α)) :
    absolute .arc z (rx :: ry :: turn :: large :: clockwise :: a :: a' :: rest) =
      rx :: ry :: turn :: large :: clockwise :: .number (z + p).x :: .number (z + p).y ::
        absolute .arc (z + p) rest := by
  have h := absolute_append (v := .arc) rfl (g := [rx, ry, turn, large, clockwise, a, a']) rfl
    (by simp) z rest
  simpa [Point.add_eq, Slot.ofVerb, Slot.takeFrom, Slot.endFrom, Slot.leadFrom,
    Argument.plus_of_real ha, Argument.plus_of_real ha'] using h

end Shapes

section Rows

variable {v : Verb} {a a' : Argument α} {as : List (Argument α)} {xs ys : List α}

theorem Argument.reals_point_ok (h : reals (a :: a' :: as) = .ok xs) :
    ∃ (p : Point α) (ys : List α), a.real = .ok p.x ∧ a'.real = .ok p.y ∧ reals as = .ok ys ∧
      xs = p.x :: p.y :: ys := by
  obtain ⟨x, _, ha, hrest, rfl⟩ := reals_cons_ok h
  obtain ⟨y, ys, ha', hr, rfl⟩ := reals_cons_ok hrest
  exact ⟨⟨x, y⟩, ys, ha, ha', hr, rfl⟩

theorem Argument.reals_number_cons (y : α) (h : reals as = .ok ys) :
    reals (.number y :: as) = .ok (y :: ys) := by
  rw [reals, h]
  rfl

theorem Argument.reals_point_cons (p : Point α) (h : reals as = .ok ys) :
    reals (.number p.x :: .number p.y :: as) = .ok (p.x :: p.y :: ys) :=
  reals_number_cons p.x (reals_number_cons p.y h)

/-- The absolute arguments stand for what the relative ones stand for once that is resolved. -/
def Resolves {γ : Type} (v : Verb) (group : List (Point α) → γ) (resolve : Point α → γ → γ)
    (as : List (Argument α)) : Prop :=
  ∀ xs z, Argument.reals as = .ok xs → ∃ ys, Argument.reals (absolute v z as) = .ok ys ∧
    group (Point.pairs ys) = resolve z (group (Point.pairs xs))

theorem resolves_nil {γ : Type} {group : List (Point α) → γ} {resolve : Point α → γ → γ}
    (h : ∀ z, group [] = resolve z (group [])) : Resolves v group resolve [] := by
  rintro xs z ⟨⟩
  exact ⟨[], by rw [absolute_nil]; rfl, h z⟩

theorem resolves_points (hv : Slot.ofVerb v = [.across, .down]) (h : as.length % 2 = 0) :
    Resolves v id displaced as := by
  refine groups_induction (motive := Resolves v id displaced) (resolves_nil fun _ => rfl) ?_ as h
  intro g rest hg _ ih xs z hr
  match g, hg with
  | [a, a'], _ =>
    obtain ⟨p, xs, ha, ha', hrest, rfl⟩ := Argument.reals_point_ok hr
    obtain ⟨ys, hys, hpairs⟩ := ih xs (z + p) hrest
    refine ⟨(z + p).x :: (z + p).y :: ys, ?_, ?_⟩
    · have habsolute := absolute_point hv ha ha' z rest
      exact habsolute ▸ Argument.reals_point_cons (z + p) hys
    · exact congrArg (List.cons (z + p)) hpairs

end Rows

end Absolute

section Doubles

theorem Point.add_comm (p q : Point Float) : p + q = q + p := by
  rw [add_eq, add_eq, Binary64.add_comm p.x, Binary64.add_comm p.y]

variable {v : Verb} {as : List (Argument Float)}

theorem resolves_quadratics (hv : Slot.ofVerb v = [.across, .down, .across, .down])
    (h : as.length % 4 = 0) : Resolves v QuadraticTo.group QuadraticTo.resolve as := by
  refine groups_induction (motive := Resolves v QuadraticTo.group QuadraticTo.resolve)
    (resolves_nil fun _ => rfl) ?_ as h
  intro g rest hg _ ih xs z hr
  match g, hg with
  | [a, a', b, b'], _ =>
    obtain ⟨p, _, ha, ha', hr₁, rfl⟩ := Argument.reals_point_ok hr
    obtain ⟨q, xs, hb, hb', hr₂, rfl⟩ := Argument.reals_point_ok hr₁
    obtain ⟨ys, hys, hgroup⟩ := ih xs (z + q) hr₂
    refine ⟨(z + p).x :: (z + p).y :: (z + q).x :: (z + q).y :: ys, ?_, ?_⟩
    · have habsolute := absolute_two_points hv ha ha' hb hb' z rest
      exact habsolute ▸ Argument.reals_point_cons (z + p) (Argument.reals_point_cons (z + q) hys)
    · simp only [Point.pairs, QuadraticTo.group, QuadraticTo.resolve, QuadraticTo.shift, hgroup,
        Point.add_comm z]

theorem resolves_cubics (h : as.length % 6 = 0) :
    Resolves .cubic CubicTo.group CubicTo.resolve as := by
  refine groups_induction (motive := Resolves .cubic CubicTo.group CubicTo.resolve)
    (resolves_nil fun _ => rfl) ?_ as h
  intro g rest hg _ ih xs z hr
  match g, hg with
  | [a, a', b, b', d, d'], _ =>
    obtain ⟨p, _, ha, ha', hr₁, rfl⟩ := Argument.reals_point_ok hr
    obtain ⟨q, _, hb, hb', hr₂, rfl⟩ := Argument.reals_point_ok hr₁
    obtain ⟨r, xs, hd, hd', hr₃, rfl⟩ := Argument.reals_point_ok hr₂
    obtain ⟨ys, hys, hgroup⟩ := ih xs (z + r) hr₃
    refine ⟨(z + p).x :: (z + p).y :: (z + q).x :: (z + q).y :: (z + r).x :: (z + r).y :: ys,
      ?_, ?_⟩
    · have habsolute := absolute_three_points ha ha' hb hb' hd hd' z rest
      exact habsolute ▸ Argument.reals_point_cons (z + p) (Argument.reals_point_cons (z + q)
        (Argument.reals_point_cons (z + r) hys))
    · simp only [Point.pairs, CubicTo.group, CubicTo.resolve, CubicTo.shift, hgroup,
        Point.add_comm z]

end Doubles

end Linework
