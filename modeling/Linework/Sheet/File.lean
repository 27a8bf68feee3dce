import Linework.Fault

/-!
# Files

Files are made in the directory at hand and in those around it, which hold no other directories.
A name leads through these directories to a file.
-/

set_option autoImplicit false

namespace Linework

/-- A file in the directory that lies a number of steps above the one at hand. -/
structure File where
  above : Nat
  name : String
  deriving DecidableEq

namespace File

def longestName : Nat := 4095

def longestPart : Nat := 255

def parts (name : String) : List String :=
  (name.splitOn "/").filter fun part => !part.isEmpty

def follow (files : List File) (name : String) : Nat → List String → Except Fault File
  | _, [] => .error .nameOfDirectory
  | above, part :: rest =>
    if part = "." then follow files name above rest
    else if part = ".." then follow files name (above + 1) rest
    else if longestPart < part.utf8ByteSize then .error (.nameTooLong name)
    else if rest.isEmpty then .ok ⟨above, part⟩
    else if files.contains ⟨above, part⟩ then .error .notADirectory
    else .error .noSuchDirectory

def make (files : List File) (name : String) : Except Fault File :=
  if name.isEmpty then .error .emptyName
  else if name.toList.contains '\x00' then .error .nullInName
  else if longestName < name.utf8ByteSize then .error (.nameTooLong name)
  else do
    let file ← follow files name 0 (parts name)
    if name.endsWith "/" then throw .nameOfDirectory else return file

end File

end Linework
