/-!
# Blank characters

Two classes are in use. `isWhite` is the Unicode property `White_Space`; `isBlank` adds the four
information separators of ASCII. The six ASCII characters that may stand between the numbers of
a path are `isAsciiSpace`.
-/

set_option autoImplicit false

namespace Linework.Text

def isAsciiSpace (c : Char) : Bool :=
  c.toNat == 32 || (9 ≤ c.toNat && c.toNat ≤ 13)

def isWhite (c : Char) : Bool :=
  isAsciiSpace c || (0x2000 ≤ c.toNat && c.toNat ≤ 0x200A) ||
    [0x85, 0xA0, 0x1680, 0x2028, 0x2029, 0x202F, 0x205F, 0x3000].contains c.toNat

def isBlank (c : Char) : Bool :=
  isWhite c || (0x1C ≤ c.toNat && c.toNat ≤ 0x1F)

def trim (p : Char → Bool) (s : List Char) : List Char :=
  ((s.dropWhile p).reverse.dropWhile p).reverse

/-- The maximal runs of characters outside a class. -/
def words (p : Char → Bool) : List Char → List (List Char)
  | [] => []
  | c :: rest =>
    if p c then words p rest
    else
      match rest, words p rest with
      | d :: _, w :: ws => if p d then [c] :: w :: ws else (c :: w) :: ws
      | _, ws => [c] :: ws

end Linework.Text
