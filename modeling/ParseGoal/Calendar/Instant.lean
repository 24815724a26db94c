import ParseGoal.Calendar.Date

/-! Instants in universal time, to the nanosecond. -/
namespace ParseGoal

/-- An instant. Second 60 is a leap second, and any minute may have one. -/
structure Instant where
  date : Date
  hour : Fin 24
  minute : Fin 60
  second : Fin 61
  nanosecond : Fin 1000000000
  deriving DecidableEq

namespace Instant

/-- The numbers of an instant, the most significant first. -/
def key (i : Instant) : List Int :=
  [i.date.year, i.date.month, i.date.day, i.hour.val, i.minute.val, i.second.val, i.nanosecond.val]

/-- Whether some numbers are no greater than others, the first that differ deciding. -/
def numbersUpTo : List Int → List Int → Bool
  | [], _ => true
  | _ :: _, [] => false
  | m :: ms, n :: ns => m < n || (m = n && numbersUpTo ms ns)

/-- Whether one instant is no later than another. -/
def isUpTo (i j : Instant) : Bool := numbersUpTo i.key j.key

/-- The first instant of 1970. -/
def epoch : Instant := ⟨{ year := 1970, month := 1, day := 1 }, 0, 0, 0, 0⟩

/-- The instant that is some nanoseconds after the epoch. -/
def ofUnix? (nanoseconds : Nat) : Option Instant :=
  let seconds := nanoseconds / 1000000000
  (Date.ofEpochDay? (seconds / 86400)).map fun date =>
    ⟨date, ⟨seconds / 3600 % 24, by omega⟩, ⟨seconds / 60 % 60, by omega⟩, ⟨seconds % 60, by omega⟩,
      ⟨nanoseconds % 1000000000, by omega⟩⟩

/-- The instant of a local time that is `ahead` minutes ahead of universal time, at most a day. -/
def ofLocal? (i : Instant) (ahead : Int) : Option Instant :=
  let minutes : Int := i.hour.val * 60 + i.minute.val - ahead
  let date? := if minutes < 0 then i.date.previous? else if 1440 ≤ minutes then i.date.next? else some i.date
  date?.map fun date =>
    ⟨date, ⟨(minutes % 1440 / 60).toNat, by omega⟩, ⟨(minutes % 60).toNat, by omega⟩, i.second,
      i.nanosecond⟩

end Instant
end ParseGoal
