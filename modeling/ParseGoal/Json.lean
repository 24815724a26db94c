import ParseGoal.Text.Digits

/-! JSON values as they are written. -/
namespace ParseGoal

/-- A number as it is written in decimal. -/
structure Numeral where
  negative : Bool
  /-- The digits before the point. -/
  whole : List Char
  /-- The digits after the point, if there is one. -/
  fraction : Option (List Char) := none
  /-- Whether the exponent is negative, and its digits, if there is one. -/
  exponent : Option (Bool × List Char) := none
  deriving DecidableEq

namespace Numeral

/-- A natural number as a numeral. -/
def ofNat (n : Nat) : Numeral := { negative := false, whole := Nat.toDigits 10 n }

/-- The value of a numeral that has neither sign, point nor exponent. -/
def toNat? (n : Numeral) : Option Nat :=
  if n.negative = false ∧ n.fraction = none ∧ n.exponent = none then some (Text.digitsValue n.whole)
  else none

end Numeral

/--
A JSON value. Strings and names are absent where an escape names half of a surrogate pair alone:
such a string is well formed, but it is no text.
-/
inductive Json where
  | null
  | bool (b : Bool)
  | number (n : Numeral)
  | string (text : Option String)
  | array (items : List Json)
  | object (fields : List (Option String × Json))

namespace Json

/-- A string that is text. -/
def ofString (text : String) : Json := .string (some text)

/-- A natural number. -/
def ofNat (n : Nat) : Json := .number (.ofNat n)

/-- An object whose names are text. -/
def ofFields (fields : List (String × Json)) : Json :=
  .object (fields.map fun (name, value) => (some name, value))

end Json
end ParseGoal
