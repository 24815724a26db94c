import ParseGoal.Calendar.Date
import ParseGoal.Toml.Quoted
import ParseGoal.Toml

/-! Numbers and dates of TOML. -/
namespace ParseGoal.Toml

/-- More digits, each of which may follow one underscore. -/
def moreDigits? (isDigit : Char → Bool) : List Char → Option (List Char × List Char)
  | [] => some ([], [])
  | '_' :: c :: rest => if isDigit c then withChar c (moreDigits? isDigit rest) else none
  | c :: rest =>
    if isDigit c then withChar c (moreDigits? isDigit rest)
    else if c = '_' then none
    else some ([], c :: rest)

/-- A run of digits, with single underscores between them. -/
def digits? (isDigit : Char → Bool) : List Char → Option (List Char × List Char)
  | c :: rest => if isDigit c then withChar c (moreDigits? isDigit rest) else none
  | [] => none

/-- The digits of a decimal integer: a zero stands alone. -/
def whole? : List Char → Option (List Char × List Char)
  | '0' :: rest => some (['0'], rest)
  | text => digits? Char.isDigit text

/-- An integer of 64 bits. -/
def integer? (n : Int) : Option Toml :=
  if -9223372036854775808 ≤ n ∧ n ≤ 9223372036854775807 then some (.integer n) else none

/-- Whether `digits * 10 ^ exponent` is rounded beyond the largest floating-point number. -/
def overflows (digits : Nat) (exponent : Int) : Bool :=
  let bound := Nat.pow 2 1024 - Nat.pow 2 970
  if digits = 0 then false
  else if 0 ≤ exponent then 400 < exponent || bound ≤ digits * Nat.pow 10 exponent.toNat
  else
    (-exponent).toNat ≤ (Nat.toDigits 10 digits).length &&
      bound * Nat.pow 10 (-exponent).toNat ≤ digits

/-- A floating-point number. One above the largest is refused; one below the smallest is not. -/
def float? (negative : Bool) (whole fraction : List Char) (exponent : Int) : Option Toml :=
  if negative = false ∧
      overflows (Text.digitsValue (whole ++ fraction)) (exponent - fraction.length) then none
  else some .float

/-- The point and the digits after it, if there are any. -/
def fraction? : List Char → Option (Option (List Char) × List Char)
  | '.' :: rest => (digits? Char.isDigit rest).map fun (digits, rest) => (some digits, rest)
  | text => some (none, text)

/-- The value of an exponent, after its mark. -/
def exponentValue? (text : List Char) : Option (Int × List Char) :=
  match text with
  | '+' :: rest => (digits? Char.isDigit rest).map fun (ds, rest) => (Text.digitsValue ds, rest)
  | '-' :: rest => (digits? Char.isDigit rest).map fun (ds, rest) => (-Text.digitsValue ds, rest)
  | _ => (digits? Char.isDigit text).map fun (ds, rest) => (Text.digitsValue ds, rest)

/-- The exponent, if there is one. -/
def exponent? : List Char → Option (Option Int × List Char)
  | c :: rest =>
    if c = 'e' ∨ c = 'E' then (exponentValue? rest).map fun (n, rest) => (some n, rest)
    else some (none, c :: rest)
  | [] => some (none, [])

/-- A decimal number without its sign, which is an integer if it has neither point nor exponent. -/
def plainDecimal? (negative : Bool) (text : List Char) : Option (Toml × List Char) := do
  let (whole, text) ← whole? text
  let (fraction, text) ← fraction? text
  let (exponent, text) ← exponent? text
  if fraction.isNone && exponent.isNone then
    let n : Int := Text.digitsValue whole
    return (← integer? (if negative then -n else n), text)
  else return (← float? negative whole (fraction.getD []) (exponent.getD 0), text)

/-- A decimal number, after its sign; infinity and the undefined number have names. -/
def decimal? (negative : Bool) : List Char → Option (Toml × List Char)
  | 'i' :: 'n' :: 'f' :: rest => some (.float, rest)
  | 'n' :: 'a' :: 'n' :: rest => some (.float, rest)
  | text => plainDecimal? negative text

/-- Whether a character is a digit in a base up to sixteen. -/
def isDigitBelow (base : Nat) (c : Char) : Bool := (Text.hexValue? c).any (· < base)

/-- An integer in another base than ten, after its mark. -/
def based? (base : Nat) (text : List Char) : Option (Toml × List Char) := do
  let (digits, rest) ← digits? (isDigitBelow base) text
  let n := digits.foldl (fun n c => n * base + (Text.hexValue? c).getD 0) 0
  return (← integer? n, rest)

/-- A number. -/
def number? : List Char → Option (Toml × List Char)
  | '0' :: 'x' :: rest => based? 16 rest
  | '0' :: 'o' :: rest => based? 8 rest
  | '0' :: 'b' :: rest => based? 2 rest
  | '+' :: rest => decimal? false rest
  | '-' :: rest => decimal? true rest
  | text => decimal? false text

/-- A number with exactly so many digits, within bounds. -/
def fixed? (count least most : Nat) (text : List Char) : Option (Nat × List Char) :=
  let digits := text.take count
  let n := Text.digitsValue digits
  if digits.length = count ∧ digits.all Char.isDigit ∧ least ≤ n ∧ n ≤ most then
    some (n, text.drop count)
  else none

/-- The text after a given character. -/
def mark? (mark : Char) : List Char → Option (List Char)
  | c :: rest => if c = mark then some rest else none
  | [] => none

/-- The text after a date. -/
def date? (text : List Char) : Option (List Char) := do
  let (year, text) ← fixed? 4 0 9999 text
  let (month, text) ← fixed? 2 1 12 (← mark? '-' text)
  let (_, text) ← fixed? 2 1 (daysInMonth year month) (← mark? '-' text)
  return text

/-- The text after a time of day. -/
def time? (text : List Char) : Option (List Char) := do
  let (_, text) ← fixed? 2 0 23 text
  let (_, text) ← fixed? 2 0 59 (← mark? ':' text)
  let (_, text) ← fixed? 2 0 60 (← mark? ':' text)
  match text with
  | '.' :: c :: rest => if c.isDigit then some (rest.dropWhile Char.isDigit) else some text
  | _ => some text

/-- The text after an offset from universal time, if there is one. -/
def offset? : List Char → Option (List Char)
  | c :: rest =>
    if c = 'Z' ∨ c = 'z' then some rest
    else if c = '+' ∨ c = '-' then do
      let (_, text) ← fixed? 2 0 23 rest
      let (_, text) ← fixed? 2 0 59 (← mark? ':' text)
      return text
    else some (c :: rest)
  | [] => some []

/-- The text after a time of day that may follow a date, with its offset. -/
def timeOfDate? (text : List Char) : Option (List Char) :=
  match text with
  | c :: rest =>
    if c = 'T' ∨ c = 't' ∨ c = ' ' then
      match time? rest with
      | some rest => offset? rest
      | none => some text
    else some text
  | [] => some []

/-- A date, a time of day, or both. -/
def dateTime? (text : List Char) : Option (Toml × List Char) :=
  match date? text with
  | some rest => (timeOfDate? rest).map (.dateTime, ·)
  | none => (time? text).map (.dateTime, ·)

end ParseGoal.Toml
