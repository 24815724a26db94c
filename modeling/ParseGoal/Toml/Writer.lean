import ParseGoal.Text.Digits
import ParseGoal.Toml

/-! Writing TOML: sections of fields, with a form of quotes for each string that needs few escapes. -/
namespace ParseGoal.Toml

/-- What a field of a section can be. -/
inductive Plain where
  | text (text : String)
  | number (n : Nat)
  | flag (b : Bool)
  | texts (items : List String)

/-- Controls need escapes; tabs and line feeds do not count. -/
def isControl (c : Char) : Bool :=
  (c.toNat < 0x20 && c != '\t' && c != '\n') || c.toNat == 0x7F

/-- Whether a character stands three times in a row. -/
def hasTriple (q : Char) : List Char → Bool
  | a :: b :: c :: rest => (a == q && b == q && c == q) || hasTriple q (b :: c :: rest)
  | _ => false

/-- The quotes around a string. -/
inductive Form where
  | basic
  | literal
  | multiBasic
  | multiLiteral
  deriving DecidableEq

/-- The first form that a string fits into without escapes, or else a basic one with escapes. -/
def formOf (text : List Char) : Form :=
  let newline := text.contains '\n'
  let control := text.any isControl
  if !(text.contains '\\' || text.contains '"' || newline || control) then .basic
  else if !(text.contains '\'' || newline || control) then .literal
  else if !(text.contains '\\' || control || hasTriple '"' text) then .multiBasic
  else if !(control || hasTriple '\'' text) then .multiLiteral
  else if newline then .multiBasic
  else .basic

/-- One character of a basic string, quotes and line feeds apart. -/
def escape (c : Char) : List Char :=
  if c = '\\' then ['\\', '\\']
  else if c = '\t' then ['\\', 't']
  else if c = '\x08' then ['\\', 'b']
  else if c = '\x0c' then ['\\', 'f']
  else if c = '\r' then ['\\', 'r']
  else if isControl c then
    ['\\', 'u', '0', '0', (Text.hexDigit (c.toNat / 16)).toUpper, (Text.hexDigit (c.toNat % 16)).toUpper]
  else [c]

/-- The inside of a basic string on one line. -/
def basicText (text : List Char) : List Char :=
  text.flatMap fun c => if c = '"' then ['\\', '"'] else if c = '\n' then ['\\', 'n'] else escape c

/-- The inside of a basic string on several lines; every third quote in a row is escaped. -/
def multiBasicText (quotes : Nat) : List Char → List Char
  | [] => []
  | c :: rest =>
    if c = '"' then
      if quotes = 2 then '\\' :: '"' :: multiBasicText 0 rest
      else '"' :: multiBasicText (quotes + 1) rest
    else if c = '\n' then '\n' :: multiBasicText 0 rest
    else escape c ++ multiBasicText 0 rest

/-- A string in quotes. A string with line feeds begins on a line of its own. -/
def quote (text : List Char) : List Char :=
  let lead := if text.contains '\n' then ['\n'] else []
  match formOf text with
  | .basic => '"' :: (basicText text ++ ['"'])
  | .literal => '\'' :: (text ++ ['\''])
  | .multiBasic => '"' :: '"' :: '"' :: (lead ++ multiBasicText 0 text ++ ['"', '"', '"'])
  | .multiLiteral => '\'' :: '\'' :: '\'' :: (lead ++ text ++ ['\'', '\'', '\''])

/-- Two strings or more have a line each. -/
def writeTexts : List String → List Char
  | [] => ['[', ']']
  | [item] => '[' :: (quote item.toList ++ [']'])
  | items =>
    '[' :: '\n' :: (items.flatMap (fun item => "    ".toList ++ quote item.toList ++ [',', '\n']) ++ [']'])

/-- A value as it is written. -/
def Plain.write : Plain → List Char
  | .text s => quote s.toList
  | .number n => Nat.toDigits 10 n
  | .flag true => ['t', 'r', 'u', 'e']
  | .flag false => ['f', 'a', 'l', 's', 'e']
  | .texts items => writeTexts items

/-- A line with a name that needs no quotes, and its value. -/
def writeField (field : String × Plain) : List Char :=
  field.1.toList ++ ' ' :: '=' :: ' ' :: (field.2.write ++ ['\n'])

/-- A header and the fields below it. -/
def writeSection (name : String) (fields : List (String × Plain)) : List Char :=
  '[' :: (name.toList ++ ']' :: '\n' :: fields.flatMap writeField)

/-- Sections with an empty line between them. -/
def writeSections : List (String × List (String × Plain)) → List Char
  | [] => []
  | [(name, fields)] => writeSection name fields
  | (name, fields) :: rest => writeSection name fields ++ '\n' :: writeSections rest

end ParseGoal.Toml
