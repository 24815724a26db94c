import ParseGoal.Program

/-! Programs that take turns, with a limit on how many are under way at once. -/
namespace ParseGoal.Program

variable {α : Type}

/-- One of the programs that take turns. -/
inductive Slot (α : Type) where
  /-- It has not begun. -/
  | waiting (program : Program α)
  /-- It is under way; this is what is left of it. -/
  | running (rest : Program α)
  | finished (value : α)

namespace Slot

/-- Whether it counts against the limit. -/
def isRunning : Slot α → Bool
  | .running _ => true
  | _ => false

end Slot

/-- Runs those that are under way to their ends, one after another. -/
def finishRunning : List (Slot α) → Program (List (Slot α))
  | [] => .done []
  | .running rest :: slots => do
    let value ← rest
    return .finished value :: (← finishRunning slots)
  | slot :: slots => do return slot :: (← finishRunning slots)

/-- Runs all to their ends, one after another. -/
def finishAll : List (Slot α) → Program (List α)
  | [] => .done []
  | .waiting program :: slots => do
    let value ← program
    return value :: (← finishAll slots)
  | .running rest :: slots => do
    let value ← rest
    return value :: (← finishAll slots)
  | .finished value :: slots => do return value :: (← finishAll slots)

/--
Takes turns in the order given, and then runs what is left. A turn begins a program if fewer than
`limit` are under way, makes one request of one that is, or marks it as finished. The results are
in the order of the programs.
-/
def interleave (limit : Nat) : (turns : List Nat) → List (Slot α) → Program (List α)
  | [], slots => do finishAll (← finishRunning slots)
  | turn :: turns, slots =>
    match slots[turn]? with
    | some (.waiting program) =>
      if slots.countP Slot.isRunning < limit then
        interleave limit turns (slots.set turn (.running program))
      else interleave limit turns slots
    | some (.running (.done value)) => interleave limit turns (slots.set turn (.finished value))
    | some (.running (.ask request next)) =>
      .ask request fun answer => interleave limit turns (slots.set turn (.running (next answer)))
    | _ => interleave limit turns slots

end ParseGoal.Program
