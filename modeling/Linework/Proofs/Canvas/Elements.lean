import Linework.Canvas.Script
import Linework.Proofs.Canvas.Calls
import Linework.Proofs.Outline.Reading
import Linework.Surface.Recording

/-!
# A path as a row of operations

Each element of a path asks for the operation that goes by its letter, with its numbers. A path
that is refused does nothing at all; any other does what these operations do one after the other,
up to the first that fails. Two paths can be joined where the second begins with a letter.
-/

set_option autoImplicit false

namespace Linework

open Outline

theorem Op.read_letter {α : Type} [Scalar α] (k : Command) (arguments : List (Argument α)) :
    Op.read (String.singleton k.letter) arguments = .ok (.command k arguments) := by
  have hname : Command.ofName? (String.singleton k.letter) = some k := by
    rcases k with ⟨v, r⟩
    cases v <;> cases r <;> decide
  simp [Op.read, Op.ofCall?, hname]

def Op.ofElement {α : Type} (e : Element α) : Op α :=
  .command e.command (Argument.ofNumbers e.numbers)

section Joining

variable {α : Type} [Scalar α] {s t : List Char} {es fs : List (Element α)}

theorem Outline.Writes.append (hs : Writes s es) (ht : Writes t fs)
    (hhead : ∃ letter ∈ commandLetters, t.head? = some letter) : Writes (s ++ t) (es ++ fs) := by
  obtain ⟨lead, parts, hd, hlead, hne, hes⟩ := hs
  obtain ⟨lead', parts', hd', -, -, hfs⟩ := ht
  have hnil := hd'.lead_eq_nil hhead
  subst hnil
  refine ⟨lead, parts ++ parts', ⟨?_, hd.lead, ?_, ?_⟩, hlead, by simp [hne],
    List.rel_append hes hfs⟩
  · rw [hd.eq_append, hd'.eq_append, List.nil_append, List.flatMap_append, List.append_assoc]
  · exact fun p hp => (List.mem_append.mp hp).elim (hd.letter p) (hd'.letter p)
  · exact fun p hp => (List.mem_append.mp hp).elim (hd.body p) (hd'.body p)

end Joining

namespace Canvas

variable {σ α : Type}

variable [Scalar α] [Surface σ α]

def follow : List (Op α) → Canvas σ α → Outcome × Canvas σ α
  | [], c => (.ok [], c)
  | op :: rest, c =>
    match step op c with
    | (.error e, t) => (.error e, t)
    | (.ok warnings, t) =>
      match follow rest t with
      | (.error e, u) => (.error e, u)
      | (.ok more, u) => (.ok (warnings ++ more), u)

/-- Operations that go by the letters of elements and are given their numbers. -/
def Named (es : List (Element α)) (ops : List (Op α)) : Prop :=
  List.Forall₂ (fun e op => Op.read (String.singleton e.command.letter)
    (Argument.ofNumbers e.numbers) = .ok op) es ops

theorem named_ofElement (es : List (Element α)) : Named es (es.map Op.ofElement) := by
  induction es with
  | nil => exact .nil
  | cons e es ih => exact .cons (Op.read_letter e.command _) ih

theorem follow_ofElement (es : List (Element α)) (c : Canvas σ α) :
    follow (es.map Op.ofElement) c = (quietly (elements es)).run c := by
  induction es generalizing c with
  | nil => rfl
  | cons e es ih =>
    have hstep : step (Op.ofElement e) c =
        (quietly (command e.command (Argument.ofNumbers e.numbers))).run c := rfl
    rw [List.map_cons, follow, hstep, run_quietly, run_quietly, elements, Act.run_bind]
    rcases (command e.command (Argument.ofNumbers e.numbers)).run c with ⟨_ | _, t⟩
    · rfl
    · simp only [ih, run_quietly]
      rcases (elements es).run t with ⟨_ | _, u⟩ <;> rfl

theorem follow_append (xs ys : List (Op α)) (c : Canvas σ α) :
    follow (xs ++ ys) c =
      match follow xs c with
      | (.error e, t) => (.error e, t)
      | (.ok warnings, t) =>
        match follow ys t with
        | (.error e, u) => (.error e, u)
        | (.ok more, u) => (.ok (warnings ++ more), u) := by
  induction xs generalizing c with
  | nil =>
    simp only [List.nil_append, follow]
    rcases follow ys c with ⟨_ | _, u⟩ <;> rfl
  | cons x xs ih =>
    rw [List.cons_append, follow, follow]
    rcases step x c with ⟨_ | w, t⟩
    · rfl
    · simp only [ih]
      rcases follow xs t with ⟨_ | _, u⟩
      · rfl
      · simp only
        rcases follow ys u with ⟨_ | _, v⟩
        · rfl
        · simp only [List.append_assoc]

theorem step_path_of_error {text : String} {fault : Fault}
    (h : (parse text : Except Fault (List (Element α))) = .error fault) (c : Canvas σ α) :
    step (.path text) c = (.error fault, c) := by
  change (quietly (path text)).run c = _
  rw [run_quietly, path, Act.run_bind, Act.run_ofExcept, h]

theorem step_path_of_ok {text : String} {es : List (Element α)} (h : parse text = .ok es)
    (c : Canvas σ α) : step (.path text) c = follow (es.map Op.ofElement) c := by
  change (quietly (path text)).run c = _
  rw [follow_ofElement, run_quietly, run_quietly, path, Act.run_bind, Act.run_ofExcept, h]

theorem follow_singleton (op : Op α) (c : Canvas σ α) : follow [op] c = step op c := by
  rw [follow]
  rcases step op c with ⟨_ | w, t⟩
  · rfl
  · simp [follow]

/-- A path is drawn element by element once all of it has been read, and not at all otherwise. -/
theorem step_path (a b : String) (c : Canvas σ α) :
    (∀ es fault, (tokenize a : List (Element α) × Option Fault) = (es, some fault) →
      (∃ reason, fault = .malformedPath reason) ∧ step (.path a) c = (.error fault, c)) ∧
    (∀ es : List (Element α), tokenize a = (es, none) →
      ∃ ops, Named es ops ∧ step (.path a) c = follow ops c) ∧
    ∀ es fs : List (Element α), parse a = .ok es → parse b = .ok fs →
      (∃ letter ∈ commandLetters, b.toList.head? = some letter) →
        parse (a ++ b) = .ok (es ++ fs) ∧
          step (.path (a ++ b)) c = follow [.path a, .path b] c := by
  refine ⟨?_, ?_, ?_⟩
  · intro es fault h
    have hp : (parse a : Except Fault (List (Element α))) = .error fault := by rw [parse, h]
    exact ⟨(breaks_of_parse hp).2, step_path_of_error hp c⟩
  · intro es h
    have hp : parse a = .ok es := by rw [parse, h]
    exact ⟨es.map Op.ofElement, named_ofElement es, step_path_of_ok hp c⟩
  · intro es fs ha hb hhead
    have hab : parse (a ++ b) = .ok (es ++ fs) := by
      apply parse_of_writes
      rw [String.toList_append]
      exact (writes_of_parse ha).append (writes_of_parse hb) hhead
    refine ⟨hab, ?_⟩
    rw [step_path_of_ok hab, List.map_append, follow_append, follow, step_path_of_ok ha]
    rcases follow (es.map Op.ofElement) c with ⟨_ | w, t⟩
    · rfl
    · simp only [follow_singleton, step_path_of_ok hb]

theorem step_path_move_line :
    ∃ es fs : List (Element Float), parse "M1 2" = .ok es ∧ parse "L3" = .ok fs ∧
      parse ("M1 2" ++ "L3") = .ok (es ++ fs) ∧
      step (.path ("M1 2" ++ "L3")) (fresh (⟨[]⟩ : Recording Float) false .radians) =
        follow [.path "M1 2", .path "L3"] (fresh (⟨[]⟩ : Recording Float) false .radians) := by
  have readable : ∀ text ∈ ["M1 2", "L3"],
      (tokenize text : List (Element Float) × Option Fault).2 = none := by decide +kernel
  have hes := parse_of_tokenize (readable "M1 2" (by simp))
  have hfs := parse_of_tokenize (readable "L3" (by simp))
  exact ⟨_, _, hes, hfs,
    (step_path "M1 2" "L3" _).2.2 _ _ hes hfs ⟨'L', by decide, rfl⟩⟩

end Canvas

end Linework
