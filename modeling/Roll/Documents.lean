import Mathlib.Data.List.Basic
import Mathlib.Data.List.Induction
import Mathlib.Logic.Function.Basic

/-!
Writers that each compose a text and place it, as a whole, at a name.

What stands at a name is the text that was placed there last, and that is what
its writer was given between beginning it and placing it.
-/
namespace Roll.Documents

variable {ι ν β : Type}

inductive Event (ι ν β : Type)
  | begun (i : ι)
  | added (i : ι) (bytes : List β)
  | placed (i : ι) (name : ν)
deriving DecidableEq, Repr

/-- The texts that are composed, and those that were placed, in this order. -/
structure Shelf (ι ν β : Type) where
  texts : ι → List β := fun _ => []
  placed : List (ν × List β) := []

namespace Shelf

variable [DecidableEq ι]

def apply (shelf : Shelf ι ν β) : Event ι ν β → Shelf ι ν β
  | .begun i => { shelf with texts := Function.update shelf.texts i [] }
  | .added i bytes => { shelf with texts := Function.update shelf.texts i (shelf.texts i ++ bytes) }
  | .placed i name => { shelf with placed := shelf.placed ++ [(name, shelf.texts i)] }

/-- The text that was placed last. -/
def shown [DecidableEq ν] (shelf : Shelf ι ν β) (name : ν) : Option (List β) :=
  (shelf.placed.reverse.find? (·.1 = name)).map (·.2)

def after (events : List (Event ι ν β)) : Shelf ι ν β := events.foldl apply {}

omit [DecidableEq ι] in
theorem shown_placed [DecidableEq ν] (shelf : Shelf ι ν β) (name n : ν) (text : List β) :
    ({ shelf with placed := shelf.placed ++ [(name, text)] } : Shelf ι ν β).shown n =
      if n = name then some text else shelf.shown n := by
  unfold shown
  rw [List.reverse_append, List.reverse_singleton, List.singleton_append, List.find?_cons]
  by_cases here : n = name
  · rw [if_pos here]
    simp [here]
  · rw [if_neg here]
    simp [Ne.symm here]

theorem after_concat (events : List (Event ι ν β)) (event : Event ι ν β) :
    after (events ++ [event]) = (after events).apply event := List.foldl_concat ..

/-- What an event gives a writer. -/
def given (i : ι) : Event ι ν β → List β
  | .added j bytes => if j = i then bytes else []
  | _ => []

def begins (i : ι) : Event ι ν β → Bool
  | .begun j => j = i
  | _ => false

/-- What a writer was given since it last began. -/
def composed (i : ι) (events : List (Event ι ν β)) : List β :=
  ((events.reverse.takeWhile (fun event => !begins i event)).reverse.map (given i)).flatten

theorem composed_concat (i : ι) (events : List (Event ι ν β)) (event : Event ι ν β) :
    composed i (events ++ [event]) = if begins i event then [] else composed i events ++ given i event := by
  unfold composed
  rw [List.reverse_append, List.reverse_singleton, List.singleton_append, List.takeWhile_cons]
  cases begins i event with
  | true => rfl
  | false => simp

theorem texts_apply (i : ι) (shelf : Shelf ι ν β) (event : Event ι ν β) :
    (shelf.apply event).texts i = if begins i event then [] else shelf.texts i ++ given i event := by
  cases event with
  | begun j =>
    by_cases same : j = i
    · simp [apply, begins, same]
    · simp [apply, begins, given, same, Ne.symm same]
  | added j bytes =>
    by_cases same : j = i
    · subst same
      simp [apply, begins, given]
    · simp [apply, begins, given, same, Ne.symm same]
  | placed j name => simp [apply, begins, given]

theorem texts_after (i : ι) (events : List (Event ι ν β)) : (after events).texts i = composed i events := by
  induction events using List.reverseRecOn with
  | nil => rfl
  | append_singleton events event ih => rw [after_concat, texts_apply, composed_concat, ih]

/-- Every text that was placed is the one that its writer had composed. -/
theorem placed_mem {name : ν} {text : List β} (events : List (Event ι ν β)) (member : (name, text) ∈ (after events).placed) :
    ∃ before i rest, events = before ++ .placed i name :: rest ∧ text = composed i before := by
  induction events using List.reverseRecOn with
  | nil => cases member
  | append_singleton events event ih =>
    rw [after_concat] at member
    have old : (name, text) ∈ (after events).placed → ∃ before i rest,
        events ++ [event] = before ++ .placed i name :: rest ∧ text = composed i before := by
      intro member
      obtain ⟨before, i, rest, rfl, same⟩ := ih member
      exact ⟨before, i, rest ++ [event], by simp, same⟩
    cases event with
    | begun j => exact old member
    | added j bytes => exact old member
    | placed j n =>
      rcases List.mem_append.mp member with before | new
      · exact old before
      · obtain ⟨rfl, rfl⟩ := Prod.mk.inj (List.mem_singleton.mp new)
        exact ⟨events, j, [], rfl, texts_after j events⟩

end Shelf

end Roll.Documents
