import Linework.Number.Decimal
import Linework.Text.Quoted

/-!
# Values given for settings

A setting comes from outside as a value of any sort; each setting then accepts the sorts that
make sense for it. Messages show a value by its text, in which only a text inside a list or a
record is quoted.
-/

set_option autoImplicit false

namespace Linework

inductive Value where
  | none
  | flag (b : Bool)
  | int (n : Int)
  | real (x : Float)
  | text (s : String)
  | list (items : List Value)
  | record (fields : List (String × Value))
  deriving Inhabited

namespace Value

def commaSeparated : List (List Char) → List Char
  | [] => []
  | [s] => s
  | s :: rest => s ++ ',' :: ' ' :: commaSeparated rest

def flagText (b : Bool) : List Char := (if b then "True" else "False").toList

def intText (n : Int) : List Char :=
  (if n < 0 then ['-'] else []) ++ Nat.toDigits 10 n.natAbs

mutual

def shown : Value → List Char
  | none => "None".toList
  | flag b => flagText b
  | int n => intText n
  | real x => Binary64.text true x
  | text s => Text.quoted s.toList
  | list items => '[' :: commaSeparated (shownItems items) ++ [']']
  | record fields => '\x7b' :: commaSeparated (shownFields fields) ++ ['\x7d']

def shownItems : List Value → List (List Char)
  | [] => []
  | v :: rest => v.shown :: shownItems rest

def shownFields : List (String × Value) → List (List Char)
  | [] => []
  | (name, v) :: rest => (Text.quoted name.toList ++ ':' :: ' ' :: v.shown) :: shownFields rest

end

def toText : Value → String
  | text s => s
  | v => String.ofList v.shown

def number? : Value → Option Float
  | flag b => some (if b then 1 else 0)
  | int n => some (Decimal.toFloat ⟨decide (n < 0), n.natAbs, 0⟩)
  | real x => some x
  | _ => Option.none

/-- Whether a value counts where a flag is asked for: nothing, zero and what is empty do not. -/
def isSet : Value → Bool
  | none => false
  | flag b => b
  | int n => n != 0
  | real x => !(x == 0)
  | text s => !s.isEmpty
  | list items => !items.isEmpty
  | record fields => !fields.isEmpty

def int? : Value → Option Int
  | flag b => some (if b then 1 else 0)
  | int n => some n
  | _ => Option.none

end Value

end Linework
