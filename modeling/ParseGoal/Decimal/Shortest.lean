/-! The shortest decimal that rounds to a given binary floating-point number. -/
namespace ParseGoal.Decimal

/-- The decimal number `digits * 10 ^ exponent`. -/
structure Scaled where
  digits : Nat
  exponent : Int
  deriving DecidableEq

/-- A positive fraction. -/
structure Ratio where
  num : Nat
  den : Nat

/-- The fraction times a power of ten. -/
def Ratio.shift (r : Ratio) (power : Int) : Ratio :=
  if 0 ≤ power then ⟨r.num * Nat.pow 10 power.toNat, r.den⟩
  else ⟨r.num, r.den * Nat.pow 10 (-power).toNat⟩

/-- The number of decimal digits of a number; zero has none. -/
def digitCount (n : Nat) : Nat :=
  if n = 0 then 0 else digitCount (n / 10) + 1
termination_by n
decreasing_by omega

/-- How often `num` must be multiplied by ten to reach `den`, looking no further than `limit`. -/
def tensToReach (num den : Nat) : (limit : Nat) → Nat
  | 0 => 0
  | limit + 1 => if den ≤ num then 0 else tensToReach (num * 10) den limit + 1

/-- The exponent of the highest decimal digit of a positive fraction that is not below `10 ^ -400`. -/
def Ratio.magnitude (r : Ratio) : Int :=
  if r.den ≤ r.num then (digitCount (r.num / r.den) : Int) - 1
  else -(tensToReach r.num r.den 400 : Int)

/-- The numbers that round to a value, in quarters of its last place, and the value itself. -/
structure Interval where
  low : Nat
  value : Nat
  high : Nat
  /-- The ends round to the value too. -/
  closed : Bool
  /-- The place of the quarters, as a power of two. -/
  power : Int

/-- The interval of a finite positive number, from its bits. -/
def Interval.ofBits (bits : UInt64) : Interval :=
  let unit := Nat.pow 2 52
  let fraction := bits.toNat % unit
  let exponent := bits.toNat / unit % Nat.pow 2 11
  let m := if exponent = 0 then fraction else fraction + unit
  let q : Int := (max exponent 1 : Nat) - 1075
  let below := if fraction = 0 ∧ 1 < exponent then 1 else 2
  ⟨4 * m - below, 4 * m, 4 * m + 2, m % 2 = 0, q - 2⟩

/-- A number of quarters as a fraction. -/
def Interval.ratio (i : Interval) (quarters : Nat) : Ratio :=
  if 0 ≤ i.power then ⟨quarters * Nat.pow 2 i.power.toNat, 1⟩
  else ⟨quarters, Nat.pow 2 (-i.power).toNat⟩

/-- Whether `digits * 10 ^ exponent` rounds to the value. -/
def Interval.contains (i : Interval) (s : Scaled) : Bool :=
  let low := (i.ratio i.low).shift (-s.exponent)
  let high := (i.ratio i.high).shift (-s.exponent)
  if i.closed then low.num ≤ s.digits * low.den && s.digits * high.den ≤ high.num
  else low.num < s.digits * low.den && s.digits * high.den < high.num

/-- The nearest decimal with `count` digits that rounds to the value. -/
def Interval.nearest? (i : Interval) (count : Nat) : Option Scaled :=
  let value := i.ratio i.value
  let exponent := value.magnitude - (count : Int) + 1
  let scaled := value.shift (-exponent)
  let below : Scaled := ⟨scaled.num / scaled.den, exponent⟩
  let above : Scaled := ⟨below.digits + 1, exponent⟩
  let twice := 2 * (scaled.num % scaled.den)
  if i.contains below then
    if i.contains above ∧ (scaled.den < twice ∨ (scaled.den = twice ∧ below.digits % 2 = 1)) then
      some above
    else some below
  else if i.contains above then some above
  else none

/-- The number without zeros at its end. -/
def Scaled.trim (s : Scaled) : Scaled :=
  if s.digits ≠ 0 ∧ s.digits % 10 = 0 then trim ⟨s.digits / 10, s.exponent + 1⟩ else s
termination_by s.digits
decreasing_by omega

/-- The shortest decimal that rounds to a finite positive number: at most seventeen digits are needed. -/
def shortest (bits : UInt64) : Scaled :=
  let i := Interval.ofBits bits
  (((List.range 17).findSome? fun n => i.nearest? (n + 1)).getD ⟨0, 0⟩).trim

end ParseGoal.Decimal
