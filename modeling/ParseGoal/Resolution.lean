import ParseGoal.Goal.Named
import ParseGoal.Grammar

/-!
Resolving the goal of a source: a plan of candidate goals is tried in order, the first that parses
wins, and only the failure of the last one is reported.
-/
namespace ParseGoal

/-- What is known of a source's goal before it is tried. -/
inductive Lead where
  /-- The goal is declared: it is the only one tried. -/
  | declared (goal : Goal)
  /-- The goal was found before: it is tried first. -/
  | cached (goal : Goal)
  | ambiguous
  deriving DecidableEq

namespace Lead

/-- The word for it. -/
def kind : Lead → String
  | .declared _ => "declared"
  | .cached _ => "cached"
  | .ambiguous => "ambiguous"

/-- Whether it declares a goal. -/
def isDeclared : Lead → Bool
  | .declared _ => true
  | _ => false

end Lead

/-- A goal to try. -/
structure Candidate where
  goal : Goal
  /-- No other goal follows, so a failure is final. -/
  terminal : Bool
  deriving DecidableEq

/-- Every goal as a candidate; the last is terminal. -/
def Candidate.ofGoals : List Goal → List Candidate
  | [] => []
  | [goal] => [⟨goal, true⟩]
  | goal :: rest => ⟨goal, false⟩ :: ofGoals rest

/-- A goal that was found. -/
structure Resolution where
  goal : Goal
  /-- The goals tried, in order; the last is the one found. -/
  attempts : List Goal
  lead : Lead
  deriving DecidableEq

/-- How sources are resolved. -/
structure Resolver where
  /-- The order for sources that declare nothing. -/
  order : GoalOrder := .standard
  bootstrap : Bootstrap := .none

namespace Resolver

/-- The goals to try, in order. -/
def goals (r : Resolver) : Lead → List Goal
  | .declared goal => [goal]
  | .cached goal => (r.order.ledBy goal).items
  | .ambiguous => r.order.items

/-- The candidates to try, in order. -/
def plan (r : Resolver) (lead : Lead) : List Candidate := Candidate.ofGoals (r.goals lead)

variable {m : Type → Type} [Monad m]

/-- Tries candidates until one parses or a terminal one fails; `tried` were tried before. -/
def tryEach (r : Resolver) (grammar : Grammar m) (key : String) (source : Bytes) (lead : Lead)
    (tried : List Goal) : List Candidate → m (Except Error Resolution)
  | [] => pure (.error (.internal s!"no candidate goals for {key}"))
  | candidate :: rest => do
    let tried := tried ++ [candidate.goal]
    match ← grammar.attempt (r.bootstrap source candidate.goal) candidate.goal with
    | .ok () => pure (.ok ⟨candidate.goal, tried, lead⟩)
    | .error failure =>
      if candidate.terminal then
        pure (.error (.rejected candidate.goal failure.position failure.reason lead.isDeclared))
      else tryEach r grammar key source lead tried rest

/-- The goal of a source. -/
def resolve (r : Resolver) (grammar : Grammar m) (key : String) (source : Bytes) (lead : Lead) :
    m (Except Error Resolution) :=
  r.tryEach grammar key source lead [] (r.plan lead)

end Resolver
end ParseGoal
