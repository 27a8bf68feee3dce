import Linework.Proofs.Act

/-!
# How an action may fail

Which faults an action can end with is read off the ways it is made of. A row of actions ends with
the fault of the first that fails, after all that come before it. An action fails early in some
way if it does so only before it has changed anything.
-/

set_option autoImplicit false

namespace Linework

variable {σ β γ : Type} {p : Fault → Prop}

section Results

def OnlyFails (p : Fault → Prop) (r : Except Fault β) : Prop := ∀ e, r = .error e → p e

theorem onlyFails_ok (b : β) : OnlyFails p (Except.ok b) := by
  rintro e ⟨⟩

theorem onlyFails_error {e : Fault} (h : p e) : OnlyFails p (Except.error e : Except Fault β) := by
  rintro f ⟨⟩
  exact h

theorem OnlyFails.imp {q : Fault → Prop} {r : Except Fault β} (h : OnlyFails p r)
    (hpq : ∀ e, p e → q e) : OnlyFails q r :=
  fun e he => hpq e (h e he)

theorem onlyFails_bind {r : Except Fault β} {f : β → Except Fault γ} (hr : OnlyFails p r)
    (hf : ∀ b, OnlyFails p (f b)) : OnlyFails p (r >>= f) := by
  cases r with
  | error e => exact onlyFails_error (hr e rfl)
  | ok b => exact hf b

end Results

namespace Act

section Faults

def FailsOnly (p : Fault → Prop) (m : Act σ β) : Prop := ∀ s, OnlyFails p (m.run s).1

theorem failsOnly_pure (b : β) : FailsOnly p (pure b : Act σ β) := fun _ => onlyFails_ok b

theorem failsOnly_throw {e : Fault} (h : p e) : FailsOnly p (throw e : Act σ β) :=
  fun _ => onlyFails_error h

theorem failsOnly_get : FailsOnly p (get : Act σ σ) := fun s => onlyFails_ok s

theorem failsOnly_modify (f : σ → σ) : FailsOnly p (modify f : Act σ PUnit) :=
  fun _ => onlyFails_ok _

theorem failsOnly_ofExcept {r : Except Fault β} (h : OnlyFails p r) :
    FailsOnly p (ofExcept r : Act σ β) :=
  fun _ => h

theorem failsOnly_bind {m : Act σ β} {f : β → Act σ γ} (hm : FailsOnly p m)
    (hf : ∀ b, FailsOnly p (f b)) : FailsOnly p (m >>= f) := by
  intro s
  have hs := hm s
  rcases h : m.run s with ⟨e | b, t⟩
  · rw [run_bind_error h]
    rw [h] at hs
    exact onlyFails_error (hs e rfl)
  · rw [run_bind_ok h]
    exact hf b t

end Faults

section Early

variable {m : Act σ β} {f : β → Act σ γ} {s : σ}

theorem onlyFails_run_bind (hm : OnlyFails p (m.run s).1)
    (hf : ∀ b t, m.run s = (.ok b, t) → OnlyFails p ((f b).run t).1) :
    OnlyFails p ((m >>= f).run s).1 := by
  rcases h : m.run s with ⟨e | b, t⟩
  · rw [h] at hm
    rw [run_bind_error h]
    exact onlyFails_error (hm e rfl)
  · rw [run_bind_ok h]
    exact hf b t h

theorem onlyFails_run_bind_ofExcept {r : Except Fault β} (hr : OnlyFails p r)
    (hf : ∀ b, OnlyFails p ((f b).run s).1) : OnlyFails p ((ofExcept r >>= f).run s).1 := by
  refine onlyFails_run_bind hr fun b t h => ?_
  obtain rfl : s = t := congrArg Prod.snd h
  exact hf b

/-- An action that fails in one of some ways has not changed the state. -/
def FailsEarly (p : Fault → Prop) (m : Act σ β) (s : σ) : Prop :=
  ∀ e t, m.run s = (.error e, t) → p e → t = s

theorem failsEarly_of_reads {e : Except Fault β} (h : m.run s = (e, s)) : FailsEarly p m s := by
  intro f t hm _
  rw [h] at hm
  exact (congrArg Prod.snd hm).symm

theorem failsEarly_of_onlyFails (h : OnlyFails (fun e => ¬ p e) (m.run s).1) :
    FailsEarly p m s := by
  intro e t hm he
  rw [hm] at h
  exact absurd he (h e rfl)

/-- What comes after a change must not fail in any of the ways. -/
theorem failsEarly_bind (hm : FailsEarly p m s)
    (hf : ∀ b t, m.run s = (.ok b, t) → OnlyFails (fun e => ¬ p e) ((f b).run t).1) :
    FailsEarly p (m >>= f) s := by
  intro e t h he
  rcases hr : m.run s with ⟨d | b, u⟩
  · rw [run_bind_error hr] at h
    cases h
    exact hm e t hr he
  · rw [run_bind_ok hr] at h
    have hb := hf b u hr
    rw [h] at hb
    exact absurd he (hb e rfl)

theorem failsEarly_bind_of_reads {e : Except Fault β} (hm : m.run s = (e, s))
    (hf : ∀ b, e = .ok b → FailsEarly p (f b) s) : FailsEarly p (m >>= f) s := by
  cases e with
  | error e => exact failsEarly_of_reads (run_bind_error hm)
  | ok b =>
    intro e t h
    rw [run_bind_ok hm] at h
    exact hf b rfl e t h

theorem failsEarly_bind_ofExcept {e : Except Fault β} (hf : ∀ b, FailsEarly p (f b) s) :
    FailsEarly p (ofExcept e >>= f) s :=
  failsEarly_bind_of_reads (run_ofExcept e s) fun b _ => hf b

end Early

section Rows

def forEach (f : β → Act σ Unit) : List β → Act σ Unit
  | [] => pure ()
  | b :: rest => do
    f b
    forEach f rest

variable {f : β → Act σ Unit} {bs : List β} {s t : σ}

theorem run_forEach_error_iff {e : Fault} :
    (forEach f bs).run s = (.error e, t) ↔
      ∃ done b rest u, bs = done ++ b :: rest ∧ (forEach f done).run s = (.ok (), u) ∧
        (f b).run u = (.error e, t) := by
  induction bs generalizing s with
  | nil => simp [forEach]
  | cons b bs ih =>
    constructor
    · intro h
      rcases hb : (f b).run s with ⟨_ | _, u⟩
      · rw [forEach, run_bind_error hb] at h
        cases h
        exact ⟨[], b, bs, s, rfl, rfl, hb⟩
      · rw [forEach, run_bind_ok hb, ih] at h
        obtain ⟨done, d, rest, v, rfl, hdone, hd⟩ := h
        exact ⟨b :: done, d, rest, v, rfl, by rw [forEach, run_bind_ok hb, hdone], hd⟩
    · rintro ⟨done, d, rest, u, heq, hdone, hd⟩
      cases done with
      | nil =>
        cases heq
        cases hdone
        rw [forEach, run_bind_error hd]
      | cons a done =>
        cases heq
        rcases hb : (f b).run s with ⟨_ | _, v⟩
        · rw [forEach, run_bind_error hb] at hdone
          cases hdone
        · rw [forEach, run_bind_ok hb] at hdone
          rw [forEach, run_bind_ok hb, ih]
          exact ⟨done, d, rest, u, rfl, hdone, hd⟩

/-- A row fails early if its first member does, and if the others find a state in which no member
fails in any of the ways. -/
theorem failsEarly_forEach {safe : σ → Prop} (hearly : ∀ b, FailsEarly p (f b) s)
    (hsafe : ∀ b t u, (f b).run t = (.ok (), u) → safe u)
    (hf : ∀ b t, safe t → OnlyFails (fun e => ¬ p e) ((f b).run t).1) :
    FailsEarly p (forEach f bs) s := by
  have hrest : ∀ rest t, safe t → OnlyFails (fun e => ¬ p e) ((forEach f rest).run t).1 := by
    intro rest
    induction rest with
    | nil => exact fun t _ => onlyFails_ok ()
    | cons b rest ih =>
      intro t ht
      exact onlyFails_run_bind (hf b t ht) fun _ u hu => ih u (hsafe b t u hu)
  cases bs with
  | nil => exact failsEarly_of_reads (run_pure () s)
  | cons b rest => exact failsEarly_bind (hearly b) fun _ t ht => hrest rest t (hsafe b s t ht)

end Rows

end Act

end Linework
