import ParseGoal.Ecma.Literal
import ParseGoal.Text.Blank
import ParseGoal.Text.Letter

/-!
Lexemes of ECMAScript. `cut` takes the first lexeme off a text; the texts of the lexemes, one
after the other, are the whole text.
-/
namespace ParseGoal.Ecma

/-- The three kinds of brackets. -/
inductive Delimiter where
  | round
  | square
  | curly
  deriving DecidableEq

namespace Delimiter

/-- The character that opens one. -/
def opener : Delimiter → Char
  | .round => '('
  | .square => '['
  | .curly => '{'

/-- The character that closes one. -/
def closer : Delimiter → Char
  | .round => ')'
  | .square => ']'
  | .curly => '}'

/-- The kind that a character opens. -/
def ofOpener? (c : Char) : Option Delimiter :=
  if c = '(' then some .round else if c = '[' then some .square
  else if c = '{' then some .curly else none

/-- The kind that a character closes. -/
def ofCloser? (c : Char) : Option Delimiter :=
  if c = ')' then some .round else if c = ']' then some .square
  else if c = '}' then some .curly else none

end Delimiter

/-- The smallest pieces that a text falls into. -/
inductive Lexeme where
  | lineBreak
  | blank
  | lineComment
  /-- A block comment, and whether a line feed is in it. -/
  | blockComment (multiline : Bool)
  /-- A comment in the style of HTML runs to the end of its line. -/
  | htmlComment
  | openComment
  | string (parts : List StringPart)
  | openString (parts : List StringPart)
  | regex
  | openRegex
  /-- A template up to its end or its first substitution; neither when the text ends first. -/
  | template (stop : Option TemplateStop)
  /-- The brace that closes a substitution, and the template after it. -/
  | templateTail (stop : Option TemplateStop)
  | opener (d : Delimiter)
  | closer (d : Delimiter)
  /-- A number; a legacy one has a digit after a leading zero. -/
  | number (legacy : Bool)
  /-- An increment or decrement. -/
  | update
  | arrow
  | word (text : String)
  | punctuator (c : Char)
  deriving DecidableEq

/-- What a cut depends on besides the text. -/
structure Context where
  /-- A slash here starts a regular expression rather than a division. -/
  regexAllowed : Bool
  /-- No token stands before this on its line. -/
  lineStart : Bool
  /-- The innermost open bracket is a substitution of a template. -/
  inSubstitution : Bool

/-- A lexeme taken off a text. -/
structure Cut where
  lexeme : Lexeme
  /-- The characters of the lexeme. -/
  text : List Char
  /-- The characters after it. -/
  rest : List Char

/-- Characters that words go on with. -/
def isWordPart (c : Char) : Bool :=
  if c.toNat < 0x80 then isIdentifierPart c else Text.isAlphanumeric c

/-- The rest of a line, without the line feed. -/
def lineText (text : List Char) : List Char := text.takeWhile (· != '\n')

/-- The text from the next line feed on. -/
def afterLine (text : List Char) : List Char := text.dropWhile (· != '\n')

/-- A lexeme that starts with `c`, goes on with a run of characters in `p`, and ends before the next other one. -/
def cutRun (lexeme : List Char → Lexeme) (c : Char) (p : Char → Bool) (rest : List Char) : Cut :=
  ⟨lexeme (c :: rest.takeWhile p), c :: rest.takeWhile p, rest.dropWhile p⟩

/-- A slash starts a comment, a regular expression or a division. -/
def cutSlash (context : Context) (rest : List Char) : Cut :=
  if rest.head? = some '/' then ⟨.lineComment, '/' :: lineText rest, afterLine rest⟩
  else if rest.head? = some '*' then
    match commentBody rest.tail with
    | some (body, after) => ⟨.blockComment (body.contains '\n'), '/' :: '*' :: body, after⟩
    | none => ⟨.openComment, '/' :: rest, []⟩
  else if context.regexAllowed then
    match regexBody false rest with
    | some (body, after) =>
      ⟨.regex, '/' :: (body ++ after.takeWhile isIdentifierPart), after.dropWhile isIdentifierPart⟩
    | none => ⟨.openRegex, '/' :: rest, []⟩
  else if rest.head? = some '=' then ⟨.punctuator '/', ['/', '='], rest.tail⟩
  else ⟨.punctuator '/', ['/'], rest⟩

/-- A quote starts a string. -/
def cutString (quote : Char) (rest : List Char) : Cut :=
  match stringParts quote rest with
  | (parts, some after) => ⟨.string parts, quote :: (stringText parts ++ [quote]), after⟩
  | (parts, none) => ⟨.openString parts, quote :: rest, []⟩

/-- A backtick, or the brace that closes a substitution, starts a stretch of template characters. -/
def cutTemplate (lexeme : Option TemplateStop → Lexeme) (c : Char) (rest : List Char) : Cut :=
  match templateBody rest with
  | some (stop, body, after) => ⟨lexeme (some stop), c :: body, after⟩
  | none => ⟨lexeme none, c :: rest, []⟩

/-- A digit, or a point before a digit, starts a number. -/
def cutNumber (c : Char) (rest : List Char) : Cut :=
  let legacy := c = '0' ∧ (rest.head?.map Char.isDigit).getD false
  let hexadecimal := c = '0' ∧ (rest.head? = some 'x' ∨ rest.head? = some 'X')
  let (tail, after) := numberTail (decide hexadecimal) c rest
  ⟨.number (decide legacy), c :: tail, after⟩

/-- A character above ASCII. -/
def cutWide (c : Char) (rest : List Char) : Cut :=
  if c = '\u2028' ∨ c = '\u2029' then ⟨.lineBreak, [c], rest⟩
  else if Text.isBlank c ∨ c = '\ufeff' then ⟨.blank, [c], rest⟩
  else if Text.isAlphabetic c then cutRun (.word ∘ String.ofList) c isWordPart rest
  else ⟨.punctuator c, [c], rest⟩

/-- Blanks in ASCII that end no line. -/
def isInlineBlank (c : Char) : Bool :=
  c == ' ' || c == '\t' || c == '\r' || c == '\x0b' || c == '\x0c'

/-- The first lexeme of the text `c :: rest`. -/
def cut (context : Context) (c : Char) (rest : List Char) : Cut :=
  if c = '\n' then ⟨.lineBreak, [c], rest⟩
  else if isInlineBlank c then ⟨.blank, [c], rest⟩
  else if c = '/' then cutSlash context rest
  else if c = '<' ∧ ['!', '-', '-'].isPrefixOf rest then
    ⟨.htmlComment, c :: lineText rest, afterLine rest⟩
  else if c = '-' ∧ context.lineStart ∧ ['-', '>'].isPrefixOf rest then
    ⟨.htmlComment, c :: lineText rest, afterLine rest⟩
  else if c = '\'' ∨ c = '"' then cutString c rest
  else if c = '\x60' then cutTemplate .template c rest
  else if c = '}' ∧ context.inSubstitution then cutTemplate .templateTail c rest
  else if let some d := Delimiter.ofOpener? c then ⟨.opener d, [c], rest⟩
  else if let some d := Delimiter.ofCloser? c then ⟨.closer d, [c], rest⟩
  else if c.isDigit then cutNumber c rest
  else if c = '.' ∧ (rest.head?.map Char.isDigit).getD false then cutNumber c rest
  else if (c = '+' ∨ c = '-') ∧ rest.head? = some c then ⟨.update, [c, c], rest.tail⟩
  else if c = '=' ∧ rest.head? = some '>' then ⟨.arrow, ['=', '>'], rest.tail⟩
  else if isIdentifierStart c then cutRun (.word ∘ String.ofList) c isWordPart rest
  else if 0x80 ≤ c.toNat then cutWide c rest
  else ⟨.punctuator c, [c], rest⟩

/-! The text of a cut and what follows it make up the whole. -/

/-- A cut takes `c` and a beginning of the text after it. -/
def Cut.Splits (piece : Cut) (c : Char) (rest : List Char) : Prop :=
  ∃ more, piece.text = c :: more ∧ more ++ piece.rest = rest

theorem Cut.splits_one (lexeme : Lexeme) (c : Char) (rest : List Char) :
    Cut.Splits ⟨lexeme, [c], rest⟩ c rest := ⟨[], rfl, rfl⟩

theorem Cut.splits_all (lexeme : Lexeme) (c : Char) (rest : List Char) :
    Cut.Splits ⟨lexeme, c :: rest, []⟩ c rest := ⟨rest, rfl, by simp⟩

theorem Cut.splits_two (lexeme : Lexeme) (c d : Char) {rest : List Char} (h : rest.head? = some d) :
    Cut.Splits ⟨lexeme, [c, d], rest.tail⟩ c rest := by
  cases rest with
  | nil => simp at h
  | cons e rest =>
    obtain rfl : e = d := by simpa using h
    exact ⟨[e], rfl, rfl⟩

theorem cutRun_splits (lexeme : List Char → Lexeme) (c : Char) (p : Char → Bool) (rest : List Char) :
    (cutRun lexeme c p rest).Splits c rest := ⟨rest.takeWhile p, rfl, by simp [cutRun]⟩

theorem cutLine_splits (lexeme : Lexeme) (c : Char) (rest : List Char) :
    Cut.Splits ⟨lexeme, c :: lineText rest, afterLine rest⟩ c rest :=
  ⟨lineText rest, rfl, List.takeWhile_append_dropWhile⟩

theorem cutSlash_splits (context : Context) (rest : List Char) :
    (cutSlash context rest).Splits '/' rest := by
  unfold cutSlash
  split
  · exact cutLine_splits ..
  split
  · next h =>
    cases rest with
    | nil => simp at h
    | cons d rest =>
      obtain rfl : d = '*' := by simpa using h
      split
      · next body _ hb => exact ⟨'*' :: body, rfl, by simpa using commentBody_append hb⟩
      · exact Cut.splits_all ..
  split
  · split
    · next hb => exact ⟨_, rfl, by simp [← regexBody_append hb]⟩
    · exact Cut.splits_all ..
  split
  · next h => exact Cut.splits_two _ _ _ h
  · exact Cut.splits_one ..

theorem cutString_splits (quote : Char) (rest : List Char) :
    (cutString quote rest).Splits quote rest := by
  unfold cutString
  split
  · next h => exact ⟨_, rfl, by simp [← stringParts_append h]⟩
  · exact Cut.splits_all ..

theorem cutTemplate_splits (lexeme : Option TemplateStop → Lexeme) (c : Char) (rest : List Char) :
    (cutTemplate lexeme c rest).Splits c rest := by
  unfold cutTemplate
  split
  · next h => exact ⟨_, rfl, templateBody_append h⟩
  · exact Cut.splits_all ..

theorem cutNumber_splits (c : Char) (rest : List Char) : (cutNumber c rest).Splits c rest :=
  ⟨_, rfl, numberTail_append ..⟩

theorem cutWide_splits (c : Char) (rest : List Char) : (cutWide c rest).Splits c rest := by
  unfold cutWide
  split
  · exact Cut.splits_one ..
  split
  · exact Cut.splits_one ..
  split
  · exact cutRun_splits ..
  · exact Cut.splits_one ..

theorem cut_splits (context : Context) (c : Char) (rest : List Char) :
    (cut context c rest).Splits c rest := by
  fun_cases cut context c rest with
  | case1 => exact Cut.splits_one ..
  | case2 => exact Cut.splits_one ..
  | case3 _ _ h => exact h ▸ cutSlash_splits context rest
  | case4 => exact cutLine_splits ..
  | case5 => exact cutLine_splits ..
  | case6 => exact cutString_splits ..
  | case7 => exact cutTemplate_splits ..
  | case8 => exact cutTemplate_splits ..
  | case9 => exact Cut.splits_one ..
  | case10 => exact Cut.splits_one ..
  | case11 => exact cutNumber_splits ..
  | case12 => exact cutNumber_splits ..
  | case13 =>
    obtain ⟨-, h⟩ : (c = '+' ∨ c = '-') ∧ rest.head? = some c := by assumption
    exact Cut.splits_two _ _ _ h
  | case14 =>
    obtain ⟨rfl, h⟩ : c = '=' ∧ rest.head? = some '>' := by assumption
    exact Cut.splits_two _ _ _ h
  | case15 => exact cutRun_splits ..
  | case16 => exact cutWide_splits ..
  | case17 => exact Cut.splits_one ..

/-- The text of a cut and the text after it make up the text that was cut. -/
theorem cut_append (context : Context) (c : Char) (rest : List Char) :
    (cut context c rest).text ++ (cut context c rest).rest = c :: rest := by
  obtain ⟨more, ht, hr⟩ := cut_splits context c rest
  rw [ht, List.cons_append, hr]

/-- What follows a lexeme is shorter than what it was cut from. -/
theorem cut_rest_length (context : Context) (c : Char) (rest : List Char) :
    (cut context c rest).rest.length < (c :: rest).length := by
  obtain ⟨more, -, hr⟩ := cut_splits context c rest
  have := congrArg List.length hr
  rw [List.length_append] at this
  simp only [List.length_cons]
  omega

end ParseGoal.Ecma
