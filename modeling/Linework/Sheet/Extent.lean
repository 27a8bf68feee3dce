import Linework.Argument

/-!
# The extent of nested lists

Lists inside lists have a length on every level as far as all lists of a level agree. They are even
if they agree on every level, so that all single values lie at the same depth.
-/

set_option autoImplicit false

namespace Linework

structure Extent where
  lengths : List Nat
  even : Bool
  deriving DecidableEq

namespace Extent

def single : Extent := ⟨[], true⟩

def commonStart : List Nat → List Nat → List Nat
  | m :: ms, n :: ns => if m = n then m :: commonStart ms ns else []
  | _, _ => []

def meet (e f : Extent) : Extent :=
  ⟨commonStart e.lengths f.lengths, e.even && f.even && e.lengths == f.lengths⟩

def shared : List Extent → Extent
  | [] => single
  | [e] => e
  | e :: rest => e.meet (shared rest)

def around (members : List Extent) : Extent :=
  ⟨members.length :: (shared members).lengths, (shared members).even⟩

end Extent

namespace Value

mutual

def extent : Value → Extent
  | list items => Extent.around (extents items)
  | _ => Extent.single

def extents : List Value → List Extent
  | [] => []
  | v :: rest => v.extent :: extents rest

end

end Value

/-- A style counts as the list of its seven attributes. -/
def Argument.extent {α : Type} : Argument α → Extent
  | .style _ => Extent.around (List.replicate 7 Extent.single)
  | .other v => v.extent
  | _ => Extent.single

end Linework
