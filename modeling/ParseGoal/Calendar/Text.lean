import ParseGoal.Calendar.Instant
import ParseGoal.Text.Blank
import ParseGoal.Text.Digits

/-! Instants as texts: one form is written, and a wider one is read. -/
namespace ParseGoal.Instant

open Text (padded digitsValue)

/-- Years from 0 to 9999 have four digits and no sign; all others have a sign. -/
def yearText (year : Int) : List Char :=
  if 0 ≤ year ∧ year ≤ 9999 then padded 4 year.natAbs
  else (if year < 0 then '-' else '+') :: padded 4 year.natAbs

/-- The date of an instant. -/
def dateText (i : Instant) : List Char :=
  yearText i.date.year ++ '-' :: (padded 2 i.date.month ++ '-' :: padded 2 i.date.day)

/-- Hour and minute of an instant. -/
def minuteText (i : Instant) : List Char := padded 2 i.hour.val ++ ':' :: padded 2 i.minute.val

/-- The fraction of a second, in the fewest of 0, 3, 6 and 9 digits that hold it. -/
def fractionText (nanosecond : Nat) : List Char :=
  if nanosecond = 0 then []
  else if nanosecond % 1000000 = 0 then '.' :: padded 3 (nanosecond / 1000000)
  else if nanosecond % 1000 = 0 then '.' :: padded 6 (nanosecond / 1000)
  else '.' :: padded 9 nanosecond

/-- An instant in full. -/
def text (i : Instant) : List Char :=
  i.dateText ++ 'T' :: (i.minuteText ++ ':' :: (padded 2 i.second.val ++
    fractionText i.nanosecond.val ++ ['Z']))

/-- An instant to the minute, for people. -/
def shortText (i : Instant) : List Char := i.dateText ++ ' ' :: i.minuteText

/-- Up to `width` digits, but at least one, after blanks. -/
def readNumber? (width : Nat) (text : List Char) : Option (Nat × List Char) :=
  let text := Text.trimStart text
  match (text.take width).takeWhile Char.isDigit with
  | [] => none
  | digits => some (digitsValue digits, text.drop digits.length)

/-- A given character, after blanks. -/
def readMark? (mark : Char) (text : List Char) : Option (List Char) :=
  match Text.trimStart text with
  | c :: rest => if c = mark then some rest else none
  | [] => none

/-- A year has up to four digits, or any number of them after a sign. -/
def readYear? (text : List Char) : Option (Int × List Char) :=
  match Text.trimStart text with
  | '-' :: rest =>
    match rest.takeWhile Char.isDigit with
    | [] => none
    | digits => some (-digitsValue digits, rest.drop digits.length)
  | '+' :: rest =>
    match rest.takeWhile Char.isDigit with
    | [] => none
    | digits => some (digitsValue digits, rest.drop digits.length)
  | text => (readNumber? 4 text).map fun (year, rest) => (year, rest)

/-- A date. -/
def readDate? (text : List Char) : Option (Date × List Char) := do
  let (year, text) ← readYear? text
  let (month, text) ← readNumber? 2 (← readMark? '-' text)
  let (day, text) ← readNumber? 2 (← readMark? '-' text)
  return (← Date.of? year month day, text)

/-- The nanoseconds of a fraction, if there is one; digits after the ninth are dropped. -/
def readFraction? : List Char → Option (Nat × List Char)
  | '.' :: rest =>
    match rest.takeWhile Char.isDigit with
    | [] => none
    | digits =>
      let kept := digits.take 9
      some (digitsValue kept * Nat.pow 10 (9 - kept.length), rest.drop digits.length)
  | text => some (0, text)

/-- The minutes of an offset's hour and minute: the minute is written, with any colons and blanks before it. -/
def readOffset? : List Char → Option (Int × List Char)
  | a :: b :: rest => do
    guard (a.isDigit && b.isDigit)
    match rest.dropWhile fun c => c == ':' || Text.isBlank c with
    | c :: d :: rest => do
      guard (c.isDigit && d.isDigit && c.toNat < '6'.toNat)
      let hours := digitsValue [a, b]
      guard (hours < 24)
      return (hours * 60 + digitsValue [c, d], rest)
    | _ => none
  | _ => none

/-- How many minutes a local time is ahead of universal time. -/
def readZone? (text : List Char) : Option (Int × List Char) :=
  match text with
  | c :: rest =>
    if (text.take 3).map Char.toUpper = ['U', 'T', 'C'] then some (0, text.drop 3)
    else if c = 'Z' ∨ c = 'z' then some (0, rest)
    else if c = '+' then readOffset? rest
    else if c = '-' ∨ c = '\u2212' then (readOffset? rest).map fun (ahead, rest) => (-ahead, rest)
    else none
  | [] => none

/-- The mark between date and time. -/
def readSeparator? : List Char → Option (List Char)
  | c :: rest => if c = 'T' ∨ c = 't' ∨ c = ' ' then some rest else none
  | [] => none

/-- The instant that a text names, blanks after it allowed. -/
def ofText? (text : List Char) : Option Instant := do
  let (date, text) ← readDate? text
  let (hour, text) ← readNumber? 2 (← readSeparator? text)
  let (minute, text) ← readNumber? 2 (← readMark? ':' text)
  let (second, text) ← readNumber? 2 (← readMark? ':' text)
  let (nanosecond, text) ← readFraction? text
  let (ahead, text) ← readZone? (Text.trimStart text)
  guard (Text.trimStart text).isEmpty
  if h : hour < 24 ∧ minute < 60 ∧ second < 61 ∧ nanosecond < 1000000000 then
    ofLocal? ⟨date, ⟨hour, h.1⟩, ⟨minute, h.2.1⟩, ⟨second, h.2.2.1⟩, ⟨nanosecond, h.2.2.2⟩⟩ ahead
  else none

end ParseGoal.Instant
