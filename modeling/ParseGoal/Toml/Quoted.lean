import ParseGoal.Text.Digits

/-!
Strings of TOML: basic ones with escapes and literal ones without, each on one line or on several.
-/
namespace ParseGoal.Toml

/-- Blanks within a line. -/
def isBlank (c : Char) : Bool := c == ' ' || c == '\t'

/-- Characters that stand for themselves in strings and comments: all but controls; a tab is none. -/
def isPlain (c : Char) : Bool := c == '\t' || (0x20 ≤ c.toNat && c.toNat != 0x7F)

theorem isPlain_ne {c : Char} (h : isPlain c = true) : c ≠ '\n' ∧ c ≠ '\r' := by
  constructor <;>
  · rintro rfl
    revert h
    decide

/-- The text after a line end, if it starts with one. -/
def newline? : List Char → Option (List Char)
  | '\n' :: rest => some rest
  | '\r' :: '\n' :: rest => some rest
  | _ => none

/-- The text without a line end at its start. -/
def dropNewline (text : List Char) : List Char := (newline? text).getD text

/-- The character with a code point in hexadecimal digits. -/
def codePoint? (digits : List Char) : Option Char := do
  let n ← Text.hexDigitsValue? digits
  if n.isValidChar then some (Char.ofNat n) else none

/-- What a backslash and this character stand for. -/
def shortEscape? (c : Char) : Option Char :=
  if c = '"' ∨ c = '\\' then some c
  else if c = 'b' then some '\x08'
  else if c = 'f' then some '\x0c'
  else if c = 'n' then some '\n'
  else if c = 'r' then some '\r'
  else if c = 't' then some '\t'
  else none

/-- A string's text and what follows it, with one more character in front. -/
def withChar (c : Char) : Option (List Char × List Char) → Option (List Char × List Char) :=
  Option.map fun (text, rest) => (c :: text, rest)

/--
The rest of a basic string, and what follows it. `multi` says that it may have several lines;
`trimming` that a backslash has ended a line, so that blanks and line ends are passed over.
Up to two quotes may stand before the three that end a string of several lines.
-/
def basicBody? (multi trimming : Bool) : List Char → Option (List Char × List Char)
  | [] => none
  | '"' :: '"' :: '"' :: '"' :: '"' :: rest =>
    if multi then some (['"', '"'], rest) else some ([], '"' :: '"' :: '"' :: '"' :: rest)
  | '"' :: '"' :: '"' :: '"' :: rest =>
    if multi then some (['"'], rest) else some ([], '"' :: '"' :: '"' :: rest)
  | '"' :: '"' :: '"' :: rest => if multi then some ([], rest) else some ([], '"' :: '"' :: rest)
  | '"' :: rest => if multi then withChar '"' (basicBody? multi false rest) else some ([], rest)
  | '\\' :: 'u' :: a :: b :: c :: d :: rest => do
    let c ← codePoint? [a, b, c, d]
    withChar c (basicBody? multi false rest)
  | '\\' :: 'U' :: a :: b :: c :: d :: e :: f :: g :: h :: rest => do
    let c ← codePoint? [a, b, c, d, e, f, g, h]
    withChar c (basicBody? multi false rest)
  | '\\' :: c :: rest =>
    if multi && (newline? ((c :: rest).dropWhile isBlank)).isSome then
      basicBody? multi true (c :: rest)
    else do
      let c ← shortEscape? c
      withChar c (basicBody? multi false rest)
  | '\r' :: '\n' :: rest =>
    if multi then
      if trimming then basicBody? multi true rest else withChar '\n' (basicBody? multi false rest)
    else none
  | c :: rest =>
    if c = '\n' then
      if multi then
        if trimming then basicBody? multi true rest else withChar '\n' (basicBody? multi false rest)
      else none
    else if trimming && isBlank c then basicBody? multi true rest
    else if isPlain c && c != '\\' then withChar c (basicBody? multi false rest)
    else none

theorem basicBody?_plain {multi : Bool} {c : Char} {rest : List Char} (hquote : c ≠ '"')
    (hbackslash : c ≠ '\\') (hplain : isPlain c = true) :
    basicBody? multi false (c :: rest) = withChar c (basicBody? multi false rest) := by
  have hreturn : c ≠ '\r' := (isPlain_ne hplain).2
  rw [basicBody?]
  · rw [if_neg (isPlain_ne hplain).1, Bool.false_and, if_neg Bool.false_ne_true, hplain, Bool.true_and,
      if_pos (bne_iff_ne.2 hbackslash)]
  all_goals
    intros
    simp_all

/-- The rest of a literal string, and what follows it. -/
def literalBody? (multi : Bool) : List Char → Option (List Char × List Char)
  | [] => none
  | '\'' :: '\'' :: '\'' :: '\'' :: '\'' :: rest =>
    if multi then some (['\'', '\''], rest) else some ([], '\'' :: '\'' :: '\'' :: '\'' :: rest)
  | '\'' :: '\'' :: '\'' :: '\'' :: rest =>
    if multi then some (['\''], rest) else some ([], '\'' :: '\'' :: '\'' :: rest)
  | '\'' :: '\'' :: '\'' :: rest =>
    if multi then some ([], rest) else some ([], '\'' :: '\'' :: rest)
  | '\'' :: rest => if multi then withChar '\'' (literalBody? multi rest) else some ([], rest)
  | '\r' :: '\n' :: rest => if multi then withChar '\n' (literalBody? multi rest) else none
  | c :: rest =>
    if isPlain c || (multi && c == '\n') then withChar c (literalBody? multi rest) else none

theorem literalBody?_plain {multi : Bool} {c : Char} {rest : List Char} (hquote : c ≠ '\'')
    (hplain : isPlain c = true) :
    literalBody? multi (c :: rest) = withChar c (literalBody? multi rest) := by
  have hreturn : c ≠ '\r' := (isPlain_ne hplain).2
  rw [literalBody?]
  · rw [hplain, Bool.true_or, if_pos rfl]
  all_goals
    intros
    simp_all

/-- A string on one line, and what follows it. -/
def lineString? : List Char → Option (List Char × List Char)
  | '"' :: rest => basicBody? false false rest
  | '\'' :: rest => literalBody? false rest
  | _ => none

/-- A string of any kind, and what follows it. A line end after three quotes is not part of it. -/
def string? : List Char → Option (List Char × List Char)
  | '"' :: '"' :: '"' :: rest => basicBody? true false (dropNewline rest)
  | '\'' :: '\'' :: '\'' :: rest => literalBody? true (dropNewline rest)
  | text => lineString? text

end ParseGoal.Toml
