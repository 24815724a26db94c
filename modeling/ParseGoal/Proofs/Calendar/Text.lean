import Mathlib.Tactic.SplitIfs
import ParseGoal.Calendar.Text
import ParseGoal.Proofs.Text.Digits

/-! Reading gives back every instant that was written. -/
namespace ParseGoal

theorem Text.isBlank_of_isDigit {c : Char} (h : c.isDigit = true) : isBlank c = false := by
  have hbounds : 48 ≤ c.toNat ∧ c.toNat ≤ 57 := by
    simpa [Char.isDigit, UInt32.le_iff_toNat_le] using h
  simp [isBlank]
  omega

theorem Text.trimStart_cons {c : Char} {rest : List Char} (h : isBlank c = false) :
    trimStart (c :: rest) = c :: rest := by
  rw [trimStart, List.dropWhile_cons_of_neg]
  rw [h]
  decide

theorem Date.of?_self (d : Date) : of? d.year d.month d.day = some d := by
  rw [of?, dif_pos ⟨d.year_bounds, d.month_bounds, d.day_bounds⟩]

namespace Instant

open Text (padded digitsValue)

variable {rest : List Char}

/-- The first digit of a padded number is neither a blank nor a sign. -/
theorem padded_eq_cons (width n : Nat) :
    ∃ c more, padded width n = c :: more ∧ c.isDigit = true := by
  cases h : padded width n with
  | nil => exact absurd h (Text.padded_ne_nil width n)
  | cons c more => exact ⟨c, more, rfl, Text.isDigit_of_mem_padded (h ▸ List.mem_cons_self)⟩

theorem trimStart_padded (width n : Nat) :
    Text.trimStart (padded width n ++ rest) = padded width n ++ rest := by
  obtain ⟨c, more, heq, hc⟩ := padded_eq_cons width n
  rw [heq, List.cons_append, Text.trimStart_cons (Text.isBlank_of_isDigit hc)]

theorem takeWhile_padded (width n : Nat) (hrest : Text.StartsWithoutDigit rest) :
    (padded width n ++ rest).takeWhile Char.isDigit = padded width n :=
  Text.takeWhile_isDigit_append (fun _ => Text.isDigit_of_mem_padded) hrest

theorem readNumber?_padded {width n : Nat} (hwidth : 0 < width) (h : n < 10 ^ width) :
    readNumber? width (padded width n ++ rest) = some (n, rest) := by
  have hlength := Text.length_padded hwidth h
  have hdigits : (padded width n).takeWhile Char.isDigit = padded width n := by
    have happend : (padded width n ++ []).takeWhile Char.isDigit = padded width n :=
      takeWhile_padded width n nofun
    rwa [List.append_nil] at happend
  have htake : (padded width n ++ rest).take width = padded width n := List.take_left' hlength
  unfold readNumber?
  dsimp only
  rw [trimStart_padded, htake, hdigits]
  split
  · next hnil => exact absurd hnil (Text.padded_ne_nil width n)
  · rw [Text.digitsValue_padded, List.drop_left]

theorem readMark?_cons {mark : Char} (h : Text.isBlank mark = false) :
    readMark? mark (mark :: rest) = some rest := by
  rw [readMark?, Text.trimStart_cons h]
  exact if_pos rfl

/-- Behind a sign, all digits are those of the year. -/
theorem readYear?_signed {sign : Char} (hsign : sign = '-' ∨ sign = '+') (n : Nat)
    (hrest : Text.StartsWithoutDigit rest) : readYear? (sign :: (padded 4 n ++ rest)) =
      some (if sign = '-' then -(n : Int) else n, rest) := by
  have hdigits := takeWhile_padded 4 n hrest
  obtain ⟨c, more, heq, -⟩ := padded_eq_cons 4 n
  rcases hsign with rfl | rfl <;>
  · rw [readYear?, Text.trimStart_cons (by decide)]
    simp only [hdigits]
    rw [heq]
    dsimp only
    rw [← heq, Text.digitsValue_padded, List.drop_left]
    rfl

/-- Without a sign, the year has four digits. -/
theorem readYear?_padded {n : Nat} (h : n < 10 ^ 4) : readYear? (padded 4 n ++ rest) = some ((n : Int), rest) := by
  have hnumber : readNumber? 4 (padded 4 n ++ rest) = some (n, rest) := readNumber?_padded (by decide) h
  obtain ⟨c, more, heq, hc⟩ := padded_eq_cons 4 n
  have hsign {sign : Char} {more' : List Char} (hsign : sign.isDigit = false) :
      padded 4 n ++ rest ≠ sign :: more' := by
    rw [heq, List.cons_append]
    intro h
    rw [(List.cons.inj h).1, hsign] at hc
    cases hc
  unfold readYear?
  rw [trimStart_padded]
  split
  · next h => exact absurd h (hsign rfl)
  · next h => exact absurd h (hsign rfl)
  · rw [hnumber, Option.map_some]

theorem readYear?_yearText (year : Int) (hrest : Text.StartsWithoutDigit rest) :
    readYear? (yearText year ++ rest) = some (year, rest) := by
  unfold yearText
  split_ifs with hplain hsign
  · have hyear : (year.natAbs : Int) = year := by omega
    rw [readYear?_padded (by omega), hyear]
  · have hyear : -(year.natAbs : Int) = year := by omega
    rw [List.cons_append, readYear?_signed (.inl rfl) _ hrest, if_pos rfl, hyear]
  · have hyear : (year.natAbs : Int) = year := by omega
    rw [List.cons_append, readYear?_signed (.inr rfl) _ hrest, if_neg (by decide), hyear]

theorem readDate?_dateText (i : Instant) : readDate? (i.dateText ++ rest) = some (i.date, rest) := by
  have hmonth : i.date.month < 10 ^ 2 := by
    have hbounds := i.date.month_bounds
    omega
  have hday : i.date.day < 10 ^ 2 := by
    have hbounds := i.date.day_bounds
    have hmost : daysInMonth i.date.year i.date.month ≤ 31 := by
      unfold daysInMonth
      split_ifs <;> decide
    omega
  have hdash : Text.isBlank '-' = false := by decide
  rw [dateText, readDate?]
  simp only [List.append_assoc, List.cons_append]
  rw [readYear?_yearText]
  · simp only [Option.bind_eq_bind, Option.bind_some, readMark?_cons hdash,
      readNumber?_padded (show 0 < 2 by decide) hmonth, readNumber?_padded (show 0 < 2 by decide) hday,
      Date.of?_self]
    rfl
  · intro c hc
    cases hc
    decide

/-- A fraction of a second is read back, whichever number of digits holds it. -/
theorem readFraction?_padded {width n : Nat} (hwidth : 0 < width ∧ width ≤ 9) (h : n < 10 ^ width)
    (hrest : Text.StartsWithoutDigit rest) :
    readFraction? ('.' :: padded width n ++ rest) = some (n * 10 ^ (9 - width), rest) := by
  have hlength := Text.length_padded hwidth.1 h
  have hkept : (padded width n).take 9 = padded width n := by
    rw [List.take_of_length_le]
    omega
  rw [List.cons_append, readFraction?, takeWhile_padded width n hrest]
  split
  · next hnil => exact absurd hnil (Text.padded_ne_nil width n)
  · dsimp only
    rw [hkept, Text.digitsValue_padded, List.drop_left, hlength]
    rfl

theorem readFraction?_fractionText {n : Nat} (h : n < 1000000000) :
    readFraction? (fractionText n ++ ['Z']) = some (n, ['Z']) := by
  have hrest : Text.StartsWithoutDigit ['Z'] := by
    intro c hc
    cases hc
    decide
  unfold fractionText
  split_ifs with hzero hmilli hmicro
  · rw [hzero]
    rfl
  · have hvalue : n / 1000000 * 10 ^ (9 - 3) = n := by omega
    rw [readFraction?_padded (by decide) (by omega) hrest, hvalue]
  · have hvalue : n / 1000 * 10 ^ (9 - 6) = n := by omega
    rw [readFraction?_padded (by decide) (by omega) hrest, hvalue]
  · rw [readFraction?_padded (by decide) (by omega) hrest, Nat.sub_self, Nat.pow_zero, Nat.mul_one]

theorem ofLocal?_zero (i : Instant) : i.ofLocal? 0 = some i := by
  have hhour := i.hour.isLt
  have hminute := i.minute.isLt
  have hminutes : ((i.hour.val : Int) * 60 + i.minute.val - 0) % 1440 / 60 = i.hour.val := by omega
  have hminutes' : ((i.hour.val : Int) * 60 + i.minute.val - 0) % 60 = i.minute.val := by omega
  rw [ofLocal?, if_neg (by omega), if_neg (by omega), Option.map_some]
  simp only [hminutes, hminutes', Int.toNat_natCast]

theorem ofText?_text (i : Instant) : ofText? i.text = some i := by
  have hhour : i.hour.val < 10 ^ 2 := Nat.lt_trans i.hour.isLt (by decide)
  have hminute : i.minute.val < 10 ^ 2 := Nat.lt_trans i.minute.isLt (by decide)
  have hsecond : i.second.val < 10 ^ 2 := Nat.lt_trans i.second.isLt (by decide)
  have hcolon : Text.isBlank ':' = false := by decide
  have hseparator (rest : List Char) : readSeparator? ('T' :: rest) = some rest := rfl
  have hzone : readZone? (Text.trimStart ['Z']) = some (0, []) := by decide
  have hend : (Text.trimStart []).isEmpty = true := rfl
  rw [text, ofText?, readDate?_dateText]
  simp only [minuteText, List.append_assoc, List.cons_append, Option.bind_eq_bind, Option.bind_some,
    hseparator, readNumber?_padded (show 0 < 2 by decide) hhour, readMark?_cons hcolon,
    readNumber?_padded (show 0 < 2 by decide) hminute,
    readNumber?_padded (show 0 < 2 by decide) hsecond,
    readFraction?_fractionText i.nanosecond.isLt, hzone, hend]
  rw [dif_pos ⟨i.hour.isLt, i.minute.isLt, i.second.isLt, i.nanosecond.isLt⟩]
  exact ofLocal?_zero i

end Instant
end ParseGoal
