import ParseGoal.Json

/-! Writing JSON, on one line or indented, with no more escapes than are needed. -/
namespace ParseGoal

/-- A numeral as it is written; a positive exponent has a plus sign. -/
def Numeral.text (n : Numeral) : List Char :=
  let sign := if n.negative then ['-'] else []
  let fraction := match n.fraction with
    | some digits => '.' :: digits
    | none => []
  let exponent := match n.exponent with
    | some (negative, digits) => 'e' :: (if negative then '-' else '+') :: digits
    | none => []
  sign ++ n.whole ++ fraction ++ exponent

namespace Json

/-- One character inside a string. -/
def escape (c : Char) : List Char :=
  if c = '"' then ['\\', '"']
  else if c = '\\' then ['\\', '\\']
  else if c = '\x08' then ['\\', 'b']
  else if c = '\x0c' then ['\\', 'f']
  else if c = '\n' then ['\\', 'n']
  else if c = '\r' then ['\\', 'r']
  else if c = '\t' then ['\\', 't']
  else if c.toNat < 0x20 then
    ['\\', 'u', '0', '0', Text.hexDigit (c.toNat / 16), Text.hexDigit (c.toNat % 16)]
  else [c]

/-- A text in quotes. -/
def quote (text : List Char) : List Char := '"' :: (text.flatMap escape ++ ['"'])

/-- How containers are laid out. -/
inductive Layout where
  /-- Everything is on one line, without blanks. -/
  | line
  /-- Every item has a line of its own, indented by two spaces for each container around it. -/
  | lines (depth : Nat)

namespace Layout

/-- The layout inside a container. -/
def inner : Layout → Layout
  | .line => .line
  | .lines depth => .lines (depth + 1)

/-- What stands before an item. -/
def lead : Layout → List Char
  | .line => []
  | .lines depth => '\n' :: List.replicate (2 * depth) ' '

/-- What stands between a name and its value. -/
def colon : Layout → List Char
  | .line => [':']
  | .lines _ => [':', ' ']

end Layout

/-- A name or string; one that is no text is written as an empty one. -/
def quoteText (text : Option String) : List Char := quote ((text.map String.toList).getD [])

mutual

/-- A value as it is written. -/
def write (layout : Layout) : Json → List Char
  | .null => ['n', 'u', 'l', 'l']
  | .bool true => ['t', 'r', 'u', 'e']
  | .bool false => ['f', 'a', 'l', 's', 'e']
  | .number n => n.text
  | .string text => quoteText text
  | .array [] => ['[', ']']
  | .array (item :: rest) =>
    '[' :: (layout.inner.lead ++ write layout.inner item ++ writeItems layout.inner rest ++
      layout.lead ++ [']'])
  | .object [] => ['{', '}']
  | .object ((name, value) :: rest) =>
    '{' :: (layout.inner.lead ++ quoteText name ++ layout.colon ++ write layout.inner value ++
      writeFields layout.inner rest ++ layout.lead ++ ['}'])

/-- The items after the first one. -/
def writeItems (layout : Layout) : List Json → List Char
  | [] => []
  | item :: rest => ',' :: (layout.lead ++ write layout item ++ writeItems layout rest)

/-- The fields after the first one. -/
def writeFields (layout : Layout) : List (Option String × Json) → List Char
  | [] => []
  | (name, value) :: rest =>
    ',' :: (layout.lead ++ quoteText name ++ layout.colon ++ write layout value ++
      writeFields layout rest)

end

/-- A value on one line. -/
def compact (value : Json) : String := String.ofList (write .line value)

/-- A value on indented lines. -/
def pretty (value : Json) : String := String.ofList (write (.lines 0) value)

end Json
end ParseGoal
