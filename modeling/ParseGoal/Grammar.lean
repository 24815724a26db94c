import ParseGoal.Goal
import ParseGoal.Text.Utf8

/-! Grammars: anything that can say whether bytes parse under a goal. -/
namespace ParseGoal

/-- Why an attempt failed, and where. -/
structure Failure where
  position : Position
  reason : String
  deriving DecidableEq

/-- The answer of an attempt. -/
abbrev Verdict := Except Failure Unit

/-- A grammar answers attempts, with effects in `m`. -/
structure Grammar (m : Type → Type) where
  name : String
  attempt : Bytes → Goal → m Verdict

/-- What is done to a source before an attempt under a goal. -/
abbrev Bootstrap := Bytes → Goal → Bytes

namespace Bootstrap

/-- The source as it is. -/
def none : Bootstrap := fun source _ => source

/-- For some goals, text before and text after the source. -/
def around (text : Goal → Option (Bytes × Bytes)) : Bootstrap := fun source goal =>
  match text goal with
  | some (before, after) => before ++ source ++ after
  | Option.none => source

end Bootstrap

/-- One attempt that was made. -/
structure Call where
  goal : Goal
  /-- The prepared source. -/
  bytes : Bytes
  deriving DecidableEq

namespace Grammar

/-- A grammar without effects, used among effects. -/
def lift {m : Type → Type} [Monad m] (grammar : Grammar Id) : Grammar m :=
  ⟨grammar.name, fun bytes goal => pure (grammar.attempt bytes goal)⟩

/-- Answers from the calls made so far, this one included, and keeps a record of them. -/
def recording (name : String) (answer : List Call → Verdict) : Grammar (StateM (List Call)) where
  name := name
  attempt bytes goal := do
    modify (· ++ [⟨goal, bytes⟩])
    return answer (← get)

/-- A grammar without effects whose calls are recorded. -/
def recorded (grammar : Grammar Id) : Grammar (StateM (List Call)) where
  name := grammar.name
  attempt bytes goal := do
    modify (· ++ [⟨goal, bytes⟩])
    return grammar.attempt bytes goal

/-- A grammar that always gives the same answer. -/
def constant (name : String) (verdict : Verdict) : Grammar Id := ⟨name, fun _ _ => verdict⟩

end Grammar
end ParseGoal
