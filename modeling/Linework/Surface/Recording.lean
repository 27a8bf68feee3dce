import Linework.Surface.Basic

/-!
# Recordings

A recording keeps the calls that it was asked to perform, in order and as they were. It never
fails, and it can be replayed on any surface.
-/

set_option autoImplicit false

namespace Linework

structure Recording (α : Type) where
  /-- The calls, the latest first. -/
  backwards : List (Call α)

namespace Recording

variable {α : Type}

def empty : Recording α := ⟨[]⟩

def calls (r : Recording α) : List (Call α) := r.backwards.reverse

def record (r : Recording α) (c : Call α) : Recording α := ⟨c :: r.backwards⟩

@[simp] theorem calls_empty : (empty : Recording α).calls = [] := rfl

@[simp] theorem calls_record (r : Recording α) (c : Call α) :
    (r.record c).calls = r.calls ++ [c] := by
  simp [calls, record]

instance : Surface (Recording α) α where
  perform c := do
    modify fun r => r.record c
    return []
  clear := set (empty : Recording α)

def replay {σ : Type} [Surface σ α] (r : Recording α) (s : σ) :
    List Warning × Option Fault × σ :=
  Surface.performAll r.calls s

/-- What a recording can be asked for by name, apart from the answer. A replay that is handed no
surface fails at the first call. -/
def ask (name : String) (arguments : List (Argument α)) (r : Recording α) : Except Fault Unit :=
  match name, arguments with
  | "names", [] => .ok ()
  | "replay", [_] =>
    match r.calls with
    | [] => .ok ()
    | c :: _ => .error (.unknownOperation c.primitive.name)
  | name, _ =>
    if ["names", "replay", "calls"].contains name then .error .wrongType
    else .error (.unknownOperation name)

def describe (r : Recording α) : String :=
  "RecordingSurface(" ++ toString r.calls.length ++ " calls)"

end Recording

end Linework
