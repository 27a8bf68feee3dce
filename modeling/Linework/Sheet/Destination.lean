import Linework.Argument
import Linework.Sheet.File

/-!
# Destinations

A document is saved to a destination, which is taken as it was given. Whether a file can be made
there is found out when the document is saved.
-/

set_option autoImplicit false

namespace Linework

/-- What a document is saved to; only a text is the name of a file. -/
inductive Destination where
  | named (name : String)
  | nameless

namespace Destination

def here (name : String) : Destination := .named ("./" ++ name)

def ofArgument? {α : Type} : Argument α → Option Destination
  | .absent => none
  | .other (.text name) => some (.named name)
  | _ => some .nameless

def make (files : List File) : Destination → Except Fault File
  | named name => File.make files name
  | nameless => .error .wrongType

end Destination

end Linework
