import ParseGoal.Ecma.Lexeme

/-! What stands next in a text, past blanks and comments in ASCII. -/
namespace ParseGoal.Ecma

/-- What a look ahead is passing over. -/
inductive Skipping where
  | blanks
  | lineComment
  | blockComment
  deriving DecidableEq

/-- The first character that is neither blank nor in a comment. An open block comment hides all after it. -/
def nextSignificantIn : Skipping → List Char → Option Char
  | _, [] => none
  | .lineComment, c :: rest => nextSignificantIn (if c = '\n' then .blanks else .lineComment) rest
  | .blockComment, c :: rest =>
    if c = '*' then
      match rest with
      | [] => none
      | d :: rest =>
        if d = '/' then nextSignificantIn .blanks rest
        else nextSignificantIn .blockComment (d :: rest)
    else nextSignificantIn .blockComment rest
  | .blanks, c :: rest =>
    if c = '\n' ∨ isInlineBlank c then nextSignificantIn .blanks rest
    else if c = '/' then
      match rest with
      | [] => some c
      | d :: rest =>
        if d = '/' then nextSignificantIn .lineComment rest
        else if d = '*' then nextSignificantIn .blockComment rest
        else some c
    else some c

/-- The first character of a text that is neither blank nor in a comment. -/
def nextSignificant (text : List Char) : Option Char := nextSignificantIn .blanks text

/-- Words that may follow an operand and so start none. -/
def infixWords : List String := ["in", "instanceof", "of"]

/-- Whether an operand starts here without doubt, on the same line. -/
def operandFollowsIn : Skipping → List Char → Bool
  | _, [] => false
  | .lineComment, _ => false
  | .blockComment, c :: rest =>
    if c = '\n' then false
    else if c = '*' then
      match rest with
      | [] => false
      | d :: rest =>
        if d = '/' then operandFollowsIn .blanks rest
        else operandFollowsIn .blockComment (d :: rest)
    else operandFollowsIn .blockComment rest
  | .blanks, c :: rest =>
    if c = ' ' ∨ c = '\t' then operandFollowsIn .blanks rest
    else if c = '/' then
      match rest with
      | [] => false
      | d :: rest => if d = '*' then operandFollowsIn .blockComment rest else false
    else if isIdentifierStart c then
      !infixWords.contains (String.ofList (c :: rest.takeWhile isIdentifierPart))
    else c.isDigit || c == '\'' || c == '"' || c == '!' || c == '~'

/--
Whether an operand follows on the same line. A bracket or a sign does not count: it could go on
with the word before it.
-/
def operandFollows (text : List Char) : Bool := operandFollowsIn .blanks text

/-! A blank is passed over, and any other character but a slash stands next. -/

section

variable {c : Char}

theorem nextSignificant_blank (hc : c = '\n' ∨ isInlineBlank c = true) (rest : List Char) :
    nextSignificant (c :: rest) = nextSignificant rest := by
  cases rest <;> simp only [nextSignificant, nextSignificantIn, if_pos hc]

theorem nextSignificant_visible (hc : ¬ (c = '\n' ∨ isInlineBlank c = true)) (hslash : c ≠ '/')
    (rest : List Char) : nextSignificant (c :: rest) = some c := by
  cases rest <;> simp only [nextSignificant, nextSignificantIn, if_neg hc, if_neg hslash]

theorem operandFollows_blank (hc : c = ' ' ∨ c = '\t') (rest : List Char) :
    operandFollows (c :: rest) = operandFollows rest := by
  cases rest <;> simp only [operandFollows, operandFollowsIn, if_pos hc]

theorem operandFollows_visible (hc : ¬ (c = ' ' ∨ c = '\t')) (hslash : c ≠ '/') (rest : List Char) :
    operandFollows (c :: rest) =
      if isIdentifierStart c then
        !infixWords.contains (String.ofList (c :: rest.takeWhile isIdentifierPart))
      else c.isDigit || c == '\'' || c == '"' || c == '!' || c == '~' := by
  cases rest <;> simp only [operandFollows, operandFollowsIn, if_neg hc, if_neg hslash]

end

end ParseGoal.Ecma
