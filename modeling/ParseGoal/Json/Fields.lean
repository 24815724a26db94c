import ParseGoal.Json

/-! Taking JSON values apart by the names of their fields. -/
namespace ParseGoal.Json

/-- The text of a string. -/
def text? : Json → Option String
  | .string text => text
  | _ => none

/-- The value of a natural number below a bound, written without point and exponent. -/
def natBelow? (bound : Nat) : Json → Option Nat
  | .number n => do
    let value ← n.toNat?
    if value < bound then some value else none
  | _ => none

/-- The value of a name that occurs exactly once. -/
def single? (name : String) (fields : List (Option String × Json)) : Option Json :=
  match fields.filter (·.1 = some name) with
  | [(_, value)] => some value
  | _ => none

/--
The values of some fields. An object has each of them once, and possibly others, under names that
are text; an array has the values alone, in order.
-/
def fields? (names : List String) : Json → Option (List Json)
  | .object fields => do
    guard (fields.all (·.1.isSome))
    names.mapM (single? · fields)
  | .array items => if items.length = names.length then some items else none
  | _ => none

end ParseGoal.Json
