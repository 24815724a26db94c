/-! TOML values. Of floating-point numbers and dates only the kind is kept. -/
namespace ParseGoal

/-- A TOML value. -/
inductive Toml where
  | string (text : String)
  | integer (n : Int)
  | float
  | bool (b : Bool)
  | dateTime
  | array (items : List Toml)
  | table (fields : List (String × Toml))

namespace Toml

/-- The text of a string. -/
def text? : Toml → Option String
  | .string text => some text
  | _ => none

/-- The truth value of a boolean. -/
def bool? : Toml → Option Bool
  | .bool b => some b
  | _ => none

/-- The value of an integer that is not negative. -/
def nat? : Toml → Option Nat
  | .integer n => if 0 ≤ n then some n.toNat else none
  | _ => none

/-- The items of an array. -/
def items? : Toml → Option (List Toml)
  | .array items => some items
  | _ => none

/--
The values of some named fields, absent where they are missing. A table has them under their
names, an array has them in order, and a date has none.
-/
def fields? (names : List String) : Toml → Option (List (Option Toml))
  | .table fields => some (names.map fun name => fields.lookup name)
  | .array items => some ((List.range names.length).map (items[·]?))
  | .dateTime => some (names.map fun _ => none)
  | _ => none

end Toml
end ParseGoal
