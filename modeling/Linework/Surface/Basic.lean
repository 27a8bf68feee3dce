import Linework.Act
import Linework.Surface.Call

/-!
# Drawing surfaces

A surface is a state with two actions: it performs one call of a primitive, and it clears itself.
Either may fail, and a failure leaves behind the state that it has reached.
-/

set_option autoImplicit false

namespace Linework

class Surface (σ : Type) (α : outParam Type) where
  perform : Call α → Act σ (List Warning)
  clear : Act σ Unit

inductive NoSurface (α : Type) where
  | none

instance {α : Type} : Surface (NoSurface α) α where
  perform c := if c.isComplete then throw .unsupported else throw .wrongType
  clear := throw .unsupported

namespace Surface

variable {σ α : Type} [Surface σ α]

/-- Performs calls in order up to the first that fails. Returns the warnings so far, the fault if
there was one, and the state that was reached. -/
def performAll : List (Call α) → σ → List Warning × Option Fault × σ
  | [], s => ([], none, s)
  | c :: rest, s =>
    match (perform c : Act σ (List Warning)).run s with
    | (.error e, s) => ([], some e, s)
    | (.ok warnings, s) =>
      let (more, fault, s) := performAll rest s
      (warnings ++ more, fault, s)

end Surface

end Linework
