import ParseGoal.Text.Alphabetic
import ParseGoal.Text.Numeric

/-! Letters and numerals of all scripts. -/
namespace ParseGoal.Text

/-- Whether a code point lies in one of the ranges. -/
def inRanges (n : Nat) (ranges : List (Nat × Nat)) : Bool :=
  ranges.any fun (first, last) => first ≤ n && n ≤ last

/-- Characters with the property `Alphabetic`: letters, letter numbers, and marks that act as letters. -/
def isAlphabetic (c : Char) : Bool :=
  c.isAlpha || inRanges c.toNat alphabeticRanges

/-- Alphabetic characters and numerals. -/
def isAlphanumeric (c : Char) : Bool :=
  isAlphabetic c || c.isDigit || inRanges c.toNat numericRanges

theorem isAlphanumeric_of_isAlphabetic {c : Char} (h : isAlphabetic c = true) :
    isAlphanumeric c = true := by
  simp [isAlphanumeric, h]

end ParseGoal.Text
