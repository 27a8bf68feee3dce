import Linework.Fault
import Linework.Number.Scalar
import Linework.Outline.Numeral
import Linework.Text.Blank
import Linework.Value

/-!
# The text of a path

A path is written as command letters, each followed by numerals with blanks and commas between
them. `parse` reads a text as a list of elements, a command with its numbers each. How many
numbers a command wants is not looked at here.
-/

set_option autoImplicit false

namespace Linework.Outline

structure Element (α : Type) where
  command : Command
  numbers : List α

def readCommand (v : Value) : Except Fault Command :=
  let found :=
    match v with
    | .text s =>
      match s.toList with
      | [c] => Command.ofLetter? c
      | _ => none
    | _ => none
  match found with
  | some command => .ok command
  | none => .error (.unknownCommand (String.ofList v.shown))

/-- A body falls into numerals and single characters that begin none. -/
inductive Lexeme where
  | number (d : Decimal)
  | other (c : Char)
  deriving DecidableEq

def lexemes (s : List Char) : List Lexeme :=
  match s with
  | [] => []
  | c :: rest =>
    match _h : numeral? (c :: rest) with
    | some (d, rest) => .number d :: lexemes rest
    | none => .other c :: lexemes rest
termination_by s.length
decreasing_by
  · exact length_numeral_lt _h
  · simp

namespace Lexeme

def isSeparator (c : Char) : Bool := Text.isAsciiSpace c || c == ','

def number? : Lexeme → Option Decimal
  | number d => some d
  | other _ => none

def leftover : Lexeme → Char
  | number _ => ' '
  | other c => c

end Lexeme

def segments : List Char → List Char × List (Command × List Char)
  | [] => ([], [])
  | c :: rest =>
    let (lead, list) := segments rest
    match Command.ofLetter? c with
    | some command => ([], (command, lead) :: list)
    | none => (c :: lead, list)

def strayText? (body : List Char) : Option (List Char) :=
  let left := (lexemes body).map Lexeme.leftover
  if left.all Lexeme.isSeparator then none
  else some (Text.trim (fun c => c == ' ' || c == ',') left)

def isLeadBlank (c : Char) : Bool :=
  [' ', '\t', '\r', '\n', '\x0c', ','].contains c

section

variable {α : Type} [Scalar α]

def readBody (path : String) (body : List Char) : Except Fault (List α) :=
  match strayText? body with
  | some stray => .error (.malformedPath (.unexpected (String.ofList stray) path))
  | none =>
    let numbers := ((lexemes body).filterMap Lexeme.number?).map Scalar.ofDecimal
    if numbers.all Scalar.isFinite then .ok numbers
    else .error (.malformedPath (.outOfRange path))

def readSegments (path : String) :
    List (Command × List Char) → List (Element α) × Option Fault
  | [] => ([], none)
  | (command, body) :: rest =>
    match readBody path body with
    | .error e => ([], some e)
    | .ok numbers =>
      let (list, fault) := readSegments path rest
      (⟨command, numbers⟩ :: list, fault)

/-- The elements of a path up to the first place where the text is malformed, and what is wrong
there. -/
def tokenize (path : String) : List (Element α) × Option Fault :=
  let (lead, list) := segments path.toList
  if (Text.trim isLeadBlank lead).isEmpty then
    if list.isEmpty then ([], some (.malformedPath (.noCommand path)))
    else readSegments path list
  else
    match strayText? lead with
    | some stray => ([], some (.malformedPath (.unexpected (String.ofList stray) path)))
    | none => ([], some (.malformedPath (.leading path)))

def parse (path : String) : Except Fault (List (Element α)) :=
  match tokenize path with
  | (list, none) => .ok list
  | (_, some fault) => .error fault

end

end Linework.Outline
