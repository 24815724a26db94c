import ParseGoal.Grammar

/-! Attempts with a deadline. One that is late or dies counts as a failure at the start of the source. -/
namespace ParseGoal

/-- How an attempt ends. -/
inductive Fate where
  | finishes
  | timesOut
  /-- The attempt ends without an answer. -/
  | dies
  deriving DecidableEq

namespace Fate

/-- An attempt that takes `duration` milliseconds finishes if that is below the limit. -/
def ofDuration (limit duration : Nat) : Fate := if duration < limit then .finishes else .timesOut

/-- The answer that counts, from the answer that the attempt would give. -/
def verdict (limit : Nat) : Fate → Verdict → Verdict
  | .finishes, inner => inner
  | .timesOut, _ => .error ⟨.start, s!"parse attempt timed out after {limit} ms"⟩
  | .dies, _ => .error ⟨.start, "parse attempt aborted"⟩

end Fate

/-- A grammar whose attempts have `limit` milliseconds; `fate` tells how each attempt ends. -/
def Grammar.limited {m : Type → Type} [Monad m] (inner : Grammar m) (limit : Nat)
    (fate : Bytes → Goal → m Fate) : Grammar m where
  name := inner.name
  attempt bytes goal := do
    let answer ← inner.attempt bytes goal
    return (← fate bytes goal).verdict limit answer

end ParseGoal
