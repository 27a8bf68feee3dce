import Linework.Fault

/-!
# Actions that may fail

An action works on a state and either answers or fails; what it has done until then stays done.
The lemmas say how each way of making an action runs, and nothing else is needed of them.
-/

set_option autoImplicit false

namespace Linework

abbrev Act (σ : Type) : Type → Type := ExceptT Fault (StateM σ)

namespace Act

variable {σ τ β γ : Type}

def run (m : Act σ β) (s : σ) : Except Fault β × σ := ExceptT.run m s

def ofRun (f : σ → Except Fault β × σ) : Act σ β := ExceptT.mk fun s => f s

def ofExcept (e : Except Fault β) : Act σ β := ofRun fun s => (e, s)

def within (get : σ → τ) (put : σ → τ → σ) (m : Act τ β) : Act σ β :=
  ofRun fun s => ((m.run (get s)).1, put s (m.run (get s)).2)

@[simp] theorem run_pure (b : β) (s : σ) : (pure b : Act σ β).run s = (.ok b, s) := rfl

@[simp] theorem run_throw (e : Fault) (s : σ) : (throw e : Act σ β).run s = (.error e, s) := rfl

@[simp] theorem run_ofExcept (e : Except Fault β) (s : σ) :
    (ofExcept e : Act σ β).run s = (e, s) := rfl

@[simp] theorem run_get (s : σ) : (get : Act σ σ).run s = (.ok s, s) := rfl

@[simp] theorem run_modify (f : σ → σ) (s : σ) :
    (modify f : Act σ PUnit).run s = (.ok ⟨⟩, f s) := rfl

@[simp] theorem run_within (get : σ → τ) (put : σ → τ → σ) (m : Act τ β) (s : σ) :
    (m.within get put).run s = ((m.run (get s)).1, put s (m.run (get s)).2) := rfl

theorem run_bind (m : Act σ β) (f : β → Act σ γ) (s : σ) :
    (m >>= f).run s =
      match m.run s with
      | (.ok b, t) => (f b).run t
      | (.error e, t) => (.error e, t) := by
  change (ExceptT.run (m >>= f)) s = _
  simp only [ExceptT.run_bind, run]
  rcases h : ExceptT.run m s with ⟨r, t⟩
  cases r with
  | ok b => simp only [bind, StateT.bind, h]
  | error e =>
    simp only [bind, StateT.bind, h]
    rfl

theorem run_bind_ok {m : Act σ β} {f : β → Act σ γ} {s t : σ} {b : β}
    (h : m.run s = (.ok b, t)) : (m >>= f).run s = (f b).run t := by
  rw [run_bind, h]

theorem run_bind_error {m : Act σ β} {f : β → Act σ γ} {s t : σ} {e : Fault}
    (h : m.run s = (.error e, t)) : (m >>= f).run s = (.error e, t) := by
  rw [run_bind, h]

end Act

end Linework
