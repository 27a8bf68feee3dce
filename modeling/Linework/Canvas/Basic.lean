import Linework.Pen
import Linework.Surface.Basic

/-!
# Canvases

A canvas keeps the pen for a surface, together with the style in force and what was saved. Every
drawing operation is an action on the canvas; the surface is only ever asked for primitives.
-/

set_option autoImplicit false

namespace Linework

structure Snapshot where
  unit : AngleUnit
  style : Style

structure Canvas (σ α : Type) where
  surface : σ
  /-- Whether an absolute command without an open subpath starts one. -/
  autoOpen : Bool
  defaultUnit : AngleUnit
  pen : Pen α
  style : Style
  /-- The snapshots, the latest first. -/
  saved : List Snapshot

namespace Canvas

variable {σ α : Type}

def fresh (surface : σ) (autoOpen : Bool) (unit : AngleUnit) : Canvas σ α :=
  ⟨surface, autoOpen, unit, Pen.fresh unit, Style.default, []⟩

def create (surface : σ) (autoOpen : Bool) (unit : Value) : Except Fault (Canvas σ α) :=
  (AngleUnit.ofValue unit).map (fresh surface autoOpen)

def withPen (c : Canvas σ α) (f : Pen α → Pen α) : Canvas σ α := { c with pen := f c.pen }

def movePen (f : Pen α → Pen α) : Act (Canvas σ α) Unit := modify fun c => c.withPen f

def requireCurrent : Act (Canvas σ α) (Point α) := do
  Act.ofExcept (← get).pen.requireCurrent

variable [Surface σ α]

def onSurface {β : Type} (m : Act σ β) : Act (Canvas σ α) β :=
  m.within Canvas.surface fun c s => { c with surface := s }

def perform (c : Call α) : Act (Canvas σ α) (List Warning) := onSurface (Surface.perform c)

def draw (c : Call α) : Act (Canvas σ α) Unit := do
  let _ ← perform c

def moveTo (z : Point α) : Act (Canvas σ α) Unit := do
  draw (.moveTo z)
  movePen fun p => p.openAt z

/-- Starts a subpath at a point if none is open, with the pen before the surface. -/
def ensureOpenAt (z : Point α) : Act (Canvas σ α) Unit := do
  let c ← get
  if c.pen.isOpen then pure ()
  else if c.autoOpen then do
    movePen fun p => p.openAt z
    draw (.moveTo z)
  else throw .noOpenSubpath

end Canvas

end Linework
