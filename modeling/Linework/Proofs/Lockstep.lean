import Linework.Proofs.Failure

/-!
# Two runs in step

An action is run from a state and from what this is mapped to. The two runs keep in step if they
answer alike and end in states that are mapped to each other, except that the first of them may
stop with a fault of some sort, after which nothing is said about the second.
-/

set_option autoImplicit false

namespace Linework.Act

variable {σ β γ : Type} {stops : Fault → Prop} {f : σ → σ}

/-- What comes after an action may itself depend on what the map changes, as long as it answers
alike. -/
theorem run_bind_of_commutes {m : Act σ β} {g h : β → Act σ γ} (hm : Commutes f m)
    (hgh : ∀ b t, (h b).run (f t) = (((g b).run t).1, f ((g b).run t).2)) (s : σ) :
    (m >>= h).run (f s) = (((m >>= g).run s).1, f ((m >>= g).run s).2) := by
  have hs := hm s
  rcases hr : m.run s with ⟨e | b, t⟩
  · rw [hr] at hs
    rw [run_bind_error hr, run_bind_error hs]
  · rw [hr] at hs
    rw [run_bind_ok hr, run_bind_ok hs, hgh]

theorem Commutes.comp {m : Act σ β} {g : σ → σ} (hg : Commutes g m) (hf : Commutes f m) :
    Commutes (fun s => g (f s)) m := by
  intro s
  rw [hg, hf]

def InStep (stops : Fault → Prop) (f : σ → σ) (m : Act σ β) : Prop :=
  ∀ s, (∃ e t, m.run s = (.error e, t) ∧ stops e) ∨ m.run (f s) = ((m.run s).1, f (m.run s).2)

theorem inStep_of_commutes {m : Act σ β} (h : Commutes f m) : InStep stops f m :=
  fun s => .inr (h s)

theorem InStep.commutes {m : Act σ β} (h : InStep (fun _ => False) f m) : Commutes f m := by
  intro s
  rcases h s with ⟨e, t, -, he⟩ | hs
  · exact he.elim
  · exact hs

theorem inStep_pure (b : β) : InStep stops f (pure b : Act σ β) :=
  inStep_of_commutes (commutes_pure b)

theorem inStep_throw (e : Fault) : InStep stops f (throw e : Act σ β) :=
  inStep_of_commutes (commutes_throw e)

theorem inStep_bind {m : Act σ β} {g : β → Act σ γ} (hm : InStep stops f m)
    (hg : ∀ b, InStep stops f (g b)) : InStep stops f (m >>= g) := by
  intro s
  rcases hm s with ⟨e, t, hrun, he⟩ | hs
  · exact .inl ⟨e, t, run_bind_error hrun, he⟩
  rcases hr : m.run s with ⟨e | b, t⟩
  · rw [hr] at hs
    right
    rw [run_bind_error hr, run_bind_error hs]
  · rw [hr] at hs
    rw [run_bind_ok hr, run_bind_ok hs]
    exact hg b t

theorem inStep_ofExcept {r : Except Fault β} {g : β → Act σ γ} (hg : ∀ b, InStep stops f (g b)) :
    InStep stops f (ofExcept r >>= g) :=
  inStep_bind (inStep_of_commutes (commutes_ofExcept r)) hg

theorem inStep_get {g : σ → Act σ γ} (hf : ∀ s, g (f s) = g s) (hg : ∀ s, InStep stops f (g s)) :
    InStep stops f (get >>= g) := by
  intro s
  rw [run_bind_ok (run_get s), run_bind_ok (run_get (f s)), hf]
  exact hg s s

theorem InStep.congr {m n : Act σ β} (h : InStep stops f n) (hrun : ∀ s, m.run s = n.run s) :
    InStep stops f m := by
  intro s
  rw [hrun, hrun]
  exact h s

theorem inStep_forEach {g : β → Act σ Unit} (hg : ∀ b, InStep stops f (g b)) (bs : List β) :
    InStep stops f (forEach g bs) := by
  induction bs with
  | nil => exact inStep_pure ()
  | cons b rest ih => exact inStep_bind (hg b) fun _ => ih

end Linework.Act
