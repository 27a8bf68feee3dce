import Linework.Act
import Mathlib.Logic.Relation

/-!
# Where an action gets to

An action moves by a relation if its steps lead to the state that the action leaves behind, be it
with an answer or with a fault. It ensures a condition if that holds where it answers, and it leaves
alone what is the same in both states. It commutes with a map of states if it does not tell a state
from what it is mapped to. The rules follow the ways of making an action, so that what an action
can do to a state is read off its text.
-/

set_option autoImplicit false

namespace Linework

theorem ok_bind {β γ : Type} (b : β) (f : β → Except Fault γ) : (Except.ok b >>= f) = f b := rfl

theorem error_bind {β γ : Type} (e : Fault) (f : β → Except Fault γ) :
    (Except.error e >>= f) = .error e := rfl

theorem exists_of_bind_ok {β γ : Type} {e : Except Fault β} {f : β → Except Fault γ} {c : γ}
    (h : (e >>= f) = .ok c) : ∃ b, e = .ok b ∧ f b = .ok c := by
  cases e with
  | error e => cases h
  | ok b => exact ⟨b, rfl, h⟩

namespace Act

variable {σ β γ : Type} {r : σ → σ → Prop}

theorem ofExcept_ok (b : β) : (ofExcept (.ok b) : Act σ β) = pure b := rfl

theorem ofExcept_error (e : Fault) : (ofExcept (.error e) : Act σ β) = throw e := rfl

theorem throw_bind (e : Fault) (f : β → Act σ γ) : (throw e : Act σ β) >>= f = throw e := rfl

theorem run_bind_congr {m : Act σ β} {f g : β → Act σ γ} {s : σ}
    (h : ∀ b t, m.run s = (.ok b, t) → (f b).run t = (g b).run t) :
    (m >>= f).run s = (m >>= g).run s := by
  rcases hm : m.run s with ⟨e | b, t⟩
  · rw [run_bind_error hm, run_bind_error hm]
  · rw [run_bind_ok hm, run_bind_ok hm, h b t hm]

theorem run_bind_ofExcept_congr {e : Except Fault β} {f g : β → Act σ γ} {s : σ}
    (h : ∀ b, (f b).run s = (g b).run s) : (ofExcept e >>= f).run s = (ofExcept e >>= g).run s := by
  refine run_bind_congr fun b t ht => ?_
  obtain ⟨-, rfl⟩ := Prod.mk.inj ht
  exact h b

theorem exists_of_run_bind_ofExcept {e : Except Fault β} {f : β → Act σ γ} {s t : σ} {c : γ}
    (h : (ofExcept e >>= f).run s = (.ok c, t)) :
    ∃ b, e = .ok b ∧ (f b).run s = (.ok c, t) := by
  cases e with
  | error e => cases h
  | ok b => exact ⟨b, rfl, h⟩

def Moves (r : σ → σ → Prop) (m : Act σ β) (s : σ) : Prop := Relation.ReflTransGen r s (m.run s).2

theorem moves_of_reads {m : Act σ β} {s : σ} {e : Except Fault β} (h : m.run s = (e, s)) :
    Moves r m s := by
  rw [Moves, h]

theorem moves_pure (b : β) (s : σ) : Moves r (pure b : Act σ β) s := moves_of_reads (run_pure b s)

theorem moves_throw (e : Fault) (s : σ) : Moves r (throw e : Act σ β) s :=
  moves_of_reads (run_throw e s)

theorem moves_of_step {m : Act σ β} {s : σ} (h : r s (m.run s).2) : Moves r m s := .single h

theorem moves_bind {m : Act σ β} {f : β → Act σ γ} {s : σ} (hm : Moves r m s)
    (hf : ∀ b t, m.run s = (.ok b, t) → Moves r (f b) t) : Moves r (m >>= f) s := by
  rw [Moves] at hm
  rcases h : m.run s with ⟨e | b, t⟩
  · rw [Moves, run_bind_error h]
    simpa [h] using hm
  · rw [Moves, run_bind_ok h]
    rw [h] at hm
    exact hm.trans (hf b t h)

theorem moves_bind_of_reads {m : Act σ β} {f : β → Act σ γ} {s : σ} {e : Except Fault β}
    (hm : m.run s = (e, s)) (hf : ∀ b, e = .ok b → Moves r (f b) s) : Moves r (m >>= f) s := by
  refine moves_bind (moves_of_reads hm) fun b t h => ?_
  rw [hm] at h
  cases h
  exact hf b rfl

theorem moves_bind_get {f : σ → Act σ γ} {s : σ} (hf : Moves r (f s) s) :
    Moves r (get >>= f) s :=
  moves_bind_of_reads (run_get s) fun _ h => Except.ok.inj h ▸ hf

theorem moves_bind_ofExcept {e : Except Fault β} {f : β → Act σ γ} {s : σ}
    (hf : ∀ b, e = .ok b → Moves r (f b) s) : Moves r (ofExcept e >>= f) s :=
  moves_bind_of_reads (run_ofExcept e s) hf

section Ensures

variable {p q t : σ → Prop}

/-- An action leads from one condition to another, unless it fails. -/
def Ensures (p q : σ → Prop) (m : Act σ β) : Prop := ∀ s b u, p s → m.run s = (.ok b, u) → q u

theorem ensures_true (m : Act σ β) : Ensures p (fun _ => True) m := fun _ _ _ _ _ => trivial

theorem ensures_pure (b : β) : Ensures p p (pure b : Act σ β) := by
  intro s c u hs h
  cases h
  exact hs

theorem ensures_throw (e : Fault) : Ensures p q (throw e : Act σ β) := by
  intro s c u hs h
  cases h

theorem ensures_get : Ensures p p (get : Act σ σ) := by
  intro s c u hs h
  cases h
  exact hs

theorem ensures_ofExcept (e : Except Fault β) : Ensures p p (ofExcept e : Act σ β) := by
  intro s c u hs h
  cases h
  exact hs

theorem ensures_modify {f : σ → σ} (hf : ∀ s, p s → q (f s)) :
    Ensures p q (modify f : Act σ PUnit) := by
  intro s c u hs h
  cases h
  exact hf s hs

theorem ensures_bind {m : Act σ β} {f : β → Act σ γ} (hm : Ensures p q m)
    (hf : ∀ b, Ensures q t (f b)) : Ensures p t (m >>= f) := by
  intro s c u hs h
  rcases hr : m.run s with ⟨e | b, v⟩
  · rw [run_bind_error hr] at h
    cases h
  · rw [run_bind_ok hr] at h
    exact hf b v c u (hm s b v hs hr) h

theorem ensures_bind_get {f : σ → Act σ γ} (hf : ∀ s, p s → Ensures (fun t => t = s) q (f s)) :
    Ensures p q (get >>= f) := by
  intro s c u hs h
  rw [run_bind_ok (run_get s)] at h
  exact hf s hs s c u rfl h

theorem Ensures.imp {p' q' : σ → Prop} {m : Act σ β} (h : Ensures p q m) (hp : ∀ s, p' s → p s)
    (hq : ∀ s, q s → q' s) : Ensures p' q' m :=
  fun s b u hs hr => hq u (h s b u (hp s hs) hr)

end Ensures

section Answers

variable {p : β → Prop}

def Answers (p : β → Prop) (m : Act σ β) : Prop := ∀ s b t, m.run s = (.ok b, t) → p b

theorem answers_pure {b : β} (hb : p b) : Answers p (pure b : Act σ β) := by
  intro s c t h
  cases h
  exact hb

theorem answers_throw (e : Fault) : Answers p (throw e : Act σ β) := by
  intro s c t h
  cases h

theorem answers_bind {m : Act σ γ} {f : γ → Act σ β} (hf : ∀ c, Answers p (f c)) :
    Answers p (m >>= f) := by
  intro s b t h
  rcases hr : m.run s with ⟨e | c, u⟩
  · rw [run_bind_error hr] at h
    cases h
  · rw [run_bind_ok hr] at h
    exact hf c u b t h

end Answers

section Leaves

variable {τ : Type} {view : σ → τ}

/-- An action does not change what a view shows of the state, also where it fails. -/
def Leaves (view : σ → τ) (m : Act σ β) : Prop := ∀ s, view (m.run s).2 = view s

theorem Leaves.part {m : Act σ β} (h : Leaves view m) (f : τ → γ) :
    Leaves (fun s => f (view s)) m :=
  fun s => congrArg f (h s)

theorem leaves_pure (b : β) : Leaves view (pure b : Act σ β) := fun _ => rfl

theorem leaves_throw (e : Fault) : Leaves view (throw e : Act σ β) := fun _ => rfl

theorem leaves_get : Leaves view (get : Act σ σ) := fun _ => rfl

theorem leaves_ofExcept (e : Except Fault β) : Leaves view (ofExcept e : Act σ β) := fun _ => rfl

theorem leaves_modify {f : σ → σ} (hf : ∀ s, view (f s) = view s) :
    Leaves view (modify f : Act σ PUnit) := hf

theorem leaves_bind {m : Act σ β} {f : β → Act σ γ} (hm : Leaves view m)
    (hf : ∀ b, Leaves view (f b)) : Leaves view (m >>= f) := by
  intro s
  have hs := hm s
  rcases hr : m.run s with ⟨e | b, u⟩
  · rw [run_bind_error hr]
    rwa [hr] at hs
  · rw [hr] at hs
    rw [run_bind_ok hr, hf b u, hs]

theorem leaves_of_moves {m : Act σ β} (hr : ∀ s t, r s t → view t = view s)
    (hm : ∀ s, Moves r m s) : Leaves view m := by
  intro s
  have hs := hm s
  rw [Moves] at hs
  generalize (m.run s).2 = t at hs ⊢
  induction hs with
  | refl => rfl
  | tail _ hst ih => rw [hr _ _ hst, ih]

end Leaves

section Commutes

variable {f : σ → σ}

/-- An action answers alike in a state and in what this is mapped to, and leads to states that
are mapped to each other. -/
def Commutes (f : σ → σ) (m : Act σ β) : Prop := ∀ s, m.run (f s) = ((m.run s).1, f (m.run s).2)

theorem commutes_pure (b : β) : Commutes f (pure b : Act σ β) := fun _ => rfl

theorem commutes_throw (e : Fault) : Commutes f (throw e : Act σ β) := fun _ => rfl

theorem commutes_ofExcept (e : Except Fault β) : Commutes f (ofExcept e : Act σ β) := fun _ => rfl

theorem commutes_modify {g : σ → σ} (hg : ∀ s, g (f s) = f (g s)) :
    Commutes f (modify g : Act σ PUnit) :=
  fun s => congrArg (Prod.mk _) (hg s)

theorem commutes_bind {m : Act σ β} {g : β → Act σ γ} (hm : Commutes f m)
    (hg : ∀ b, Commutes f (g b)) : Commutes f (m >>= g) := by
  intro s
  have hs := hm s
  rcases hr : m.run s with ⟨e | b, t⟩
  · rw [hr] at hs
    rw [run_bind_error hr, run_bind_error hs]
  · rw [hr] at hs
    rw [run_bind_ok hr, run_bind_ok hs, hg b t]

/-- What is done after a look at the state must not depend on what the map changes. -/
theorem commutes_get {g : σ → Act σ γ} (hf : ∀ s, g (f s) = g s) (hg : ∀ s, Commutes f (g s)) :
    Commutes f (get >>= g) := by
  intro s
  rw [run_bind_ok (run_get s), run_bind_ok (run_get (f s)), hf, hg s s]

end Commutes

end Act

end Linework
