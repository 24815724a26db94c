import ParseGoal.Decimal.Shortest
import ParseGoal.Json

/-!
The canonical form of JSON values that a program can hold: texts are text, numbers are 64-bit
integers or binary floating-point numbers, containers are not nested too deeply, and names are
sorted, the last value of a repeated name counting.
-/
namespace ParseGoal

/-- A number as it is held. -/
inductive Magnitude where
  | whole (n : Int)
  | binary (x : Float)

namespace Numeral

/-- Takes in digits as long as the number has 64 bits; the other digits are left. -/
def absorb (n : Nat) : List Char → Nat × List Char
  | [] => (n, [])
  | c :: rest =>
    let more := n * 10 + (c.toNat - '0'.toNat)
    if more < UInt64.size then absorb more rest else (n, c :: rest)

/-- A power of ten as a floating-point number. -/
def tenTo (n : Nat) : Float := Float.ofScientific 1 false n

/-- Scales by a power of ten in steps that each round; nothing is returned if the result is too large. -/
def scale (x : Float) (power : Int) : Option Float :=
  if power.natAbs ≤ 308 then
    if 0 ≤ power then
      let scaled := x * tenTo power.natAbs
      if scaled.isInf then none else some scaled
    else some (x / tenTo power.natAbs)
  else if x == 0 then some x
  else if 0 ≤ power then none
  else scale (x / tenTo 308) (power + 308)
termination_by power.natAbs

/-- An exponent that does not fit into 31 bits makes a number zero or too large. -/
def applyExponent (significand : Nat) (power : Int) : Option (Bool × List Char) → Option Float
  | none => scale significand.toFloat power
  | some (negative, digits) =>
    let exponent := Text.digitsValue digits
    if exponent ≤ 2147483647 then
      scale significand.toFloat (if negative then power - exponent else power + exponent)
    else if significand = 0 ∨ negative then some 0
    else none

/-- The number that a numeral stands for. Digits beyond 64 bits count only by their place. -/
def magnitude? (n : Numeral) : Option Magnitude :=
  let (whole, beyond) := absorb 0 n.whole
  let (significand, rest) := absorb whole (n.fraction.getD [])
  let power : Int := beyond.length + rest.length - (n.fraction.getD []).length
  if beyond = [] ∧ n.fraction = none ∧ n.exponent = none then
    if n.negative then
      if whole = 0 ∨ 9223372036854775808 < whole then some (.binary (-whole.toFloat)) else some (.whole (-whole))
    else some (.whole whole)
  else (applyExponent significand power n.exponent).map fun x =>
    .binary (if n.negative then -x else x)

end Numeral

namespace Magnitude

/--
The numeral of a decimal number: positional from `10 ^ -5` up to below `10 ^ 16`, and with one
digit before the point and an exponent otherwise.
-/
def numeralOf (negative : Bool) (s : Decimal.Scaled) : Numeral :=
  let digits := Nat.toDigits 10 s.digits
  let point : Int := digits.length + s.exponent
  if 0 ≤ s.exponent ∧ point ≤ 16 then
    ⟨negative, digits ++ List.replicate s.exponent.toNat '0', some ['0'], none⟩
  else if 0 < point ∧ point ≤ 16 then
    ⟨negative, digits.take point.toNat, some (digits.drop point.toNat), none⟩
  else if -5 < point ∧ point ≤ 0 then
    ⟨negative, ['0'], some (List.replicate (-point).toNat '0' ++ digits), none⟩
  else
    let exponent := some (decide (point - 1 < 0), Nat.toDigits 10 (point - 1).natAbs)
    ⟨negative, digits.take 1, if digits.length = 1 then none else some (digits.drop 1), exponent⟩

/-- The numeral that is written for a number. -/
def numeral : Magnitude → Numeral
  | .whole n => { negative := decide (n < 0), whole := Nat.toDigits 10 n.natAbs }
  | .binary x =>
    let negative := decide (9223372036854775808 ≤ x.toBits.toNat)
    if x == 0 then ⟨negative, ['0'], some ['0'], none⟩
    else numeralOf negative (Decimal.shortest (x.toBits &&& 0x7FFFFFFFFFFFFFFF))

end Magnitude

namespace Json

/-- Containers may be nested this deeply. -/
def depthLimit : Nat := 127

/-- Puts a field into a sorted object; a field of the same name is replaced. -/
def insertField (name : String) (value : Json) :
    List (Option String × Json) → List (Option String × Json)
  | [] => [(some name, value)]
  | (other, kept) :: rest =>
    if other = some name then (some name, value) :: rest
    else if name < other.getD "" then (some name, value) :: (other, kept) :: rest
    else (other, kept) :: insertField name value rest

mutual

/-- The canonical form of a value, with `depth` containers allowed in one another. -/
def canonicalWithin? : Nat → Json → Option Json
  | _, .null => some .null
  | _, .bool b => some (.bool b)
  | _, .number n => n.magnitude?.map fun m => .number m.numeral
  | _, .string text => text.map .ofString
  | 0, .array _ => none
  | depth + 1, .array items => (canonicalItems? depth items).map .array
  | 0, .object _ => none
  | depth + 1, .object fields => (canonicalFields? depth fields []).map .object

/-- The canonical forms of some items. -/
def canonicalItems? (depth : Nat) : List Json → Option (List Json)
  | [] => some []
  | item :: rest => do
    let item ← canonicalWithin? depth item
    let rest ← canonicalItems? depth rest
    return item :: rest

/-- The fields of an object are put one by one into those before them. -/
def canonicalFields? (depth : Nat) :
    List (Option String × Json) → List (Option String × Json) → Option (List (Option String × Json))
  | [], sorted => some sorted
  | (name, value) :: rest, sorted => do
    let name ← name
    let value ← canonicalWithin? depth value
    canonicalFields? depth rest (insertField name value sorted)

end

/-- The canonical form of a value, if it can be held. -/
def canonical? (value : Json) : Option Json := canonicalWithin? depthLimit value

end Json
end ParseGoal
