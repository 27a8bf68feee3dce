import Linework.Sheet.Document

/-!
# Desks

A desk holds what is worked on and the files that have been made of it, which stay there when the
work is cleared away. A document is saved in a file of its desk, and a file can be asked to be
shown.
-/

set_option autoImplicit false

namespace Linework

structure Desk (σ : Type) where
  work : σ
  files : List File

namespace Desk

def onPart {σ τ β : Type} (get : σ → τ) (put : σ → τ → σ) (m : Act (Desk τ) β) :
    Act (Desk σ) β :=
  m.within (fun d => ⟨get d.work, d.files⟩) fun d e => ⟨put d.work e.work, e.files⟩

def onWork {σ β : Type} (m : Act σ β) : Act (Desk σ) β :=
  m.within work fun d s => { d with work := s }

/-- Saves the document to a destination, at first its own and then the one used last; answers the
name of the file and its text. The destination is taken and the file is made even if the document
cannot be written. -/
def save (given? : Option Destination) : Act (Desk (Sheet Float)) (String × String) := do
  let desk ← get
  let destination := given?.getD desk.work.savedTo
  onWork (modify fun s => { s with savedTo := destination })
  let file ← Act.ofExcept (destination.make desk.files)
  modify fun d => { d with files := file :: d.files }
  let text ← Act.ofExcept desk.work.toFileText
  return (file.name, text)

def saveQuietly (given? : Option Destination) : Act (Desk (Sheet Float)) Unit := do
  let _ ← save given?

def ask (name : String) (arguments : List (Argument Float)) : Act (Desk (Sheet Float)) Unit :=
  match name, arguments with
  | "d", [] => pure ()
  | "tostring", [] => do
    let _ ← Act.ofExcept (← get).work.toText
  | "save_svg", [] => saveQuietly none
  | "save_svg", [destination] | "save_svg", [destination, _] =>
    saveQuietly (Destination.ofArgument? destination)
  | name, _ =>
    if ["d", "tostring", "save_svg", "drawing", "ctm", "size", "filename"].contains name then
      throw .wrongType
    else throw (.unknownOperation name)

end Desk

structure Viewing where
  file : String
  mode : Nat

namespace Viewing

def request (name : String) (isThere : Bool) : Except Fault (List Viewing) :=
  if isThere then ((Destination.here name).make []).map fun file => [⟨file.name, 2⟩]
  else .error .fileNotFound

end Viewing

end Linework
