import ParseGoal.Toml.Node
import ParseGoal.Toml.Number
import ParseGoal.Toml.Quoted

/-! Reading TOML: lines are read one after another, and make up sections. -/
namespace ParseGoal.Toml

/-- Containers are nested less deeply than this, and keys have fewer parts. -/
def nestingLimit : Nat := 80

/-- The text without the blanks at its start. -/
def dropBlanks (text : List Char) : List Char := text.dropWhile isBlank

/-- Whether a character may stand in a key without quotes. -/
def isBare (c : Char) : Bool := c.isAlphanum || c == '_' || c == '-'

/-- One part of a key. -/
def keyPart? (text : List Char) : Option (String × List Char) :=
  match text.head? with
  | some '"' => (lineString? text).map fun (name, rest) => (String.ofList name, rest)
  | some '\'' => (lineString? text).map fun (name, rest) => (String.ofList name, rest)
  | _ =>
    match text.takeWhile isBare with
    | [] => none
    | name => some (String.ofList name, text.dropWhile isBare)

/-- The parts of a key before the last, and the last; blanks around them are passed over. -/
def key? : (limit : Nat) → List Char → Option (List String × String × List Char)
  | 0, _ => none
  | limit + 1, text => do
    let (part, text) ← keyPart? (dropBlanks text)
    match dropBlanks text with
    | '.' :: text =>
      let (path, name, text) ← key? limit text
      return (part :: path, name, text)
    | text => return ([], part, text)

/-- A key, as long as keys may be. -/
def anyKey? (text : List Char) : Option (List String × String × List Char) :=
  key? (nestingLimit - 1) text

/-- Passes over blanks, line ends and comments; `comment` says that a comment has begun. -/
def skipLines (comment : Bool) : List Char → List Char
  | '\r' :: '\n' :: rest => skipLines false rest
  | c :: rest =>
    if c = '\n' then skipLines false rest
    else if comment then if isPlain c then skipLines true rest else c :: rest
    else if isBlank c then skipLines false rest
    else if c = '#' then skipLines true rest
    else c :: rest
  | [] => []

/-- Something at the start of a text, and what follows it. -/
abbrev Reader (α : Type) := List Char → Option (α × List Char)

/-- The items of an array after its bracket; each takes at least one character of `fuel`. -/
def itemsAfter? (value? : Reader Toml) : (fuel : Nat) → Reader (List Toml)
  | 0, _ => none
  | fuel + 1, text =>
    match skipLines false text with
    | ']' :: rest => some ([], rest)
    | text => do
      let (item, text) ← value? text
      match skipLines false text with
      | ',' :: rest =>
        let (items, rest) ← itemsAfter? value? fuel rest
        return (item :: items, rest)
      | ']' :: rest => return ([item], rest)
      | _ => none

/-- A key, an equals sign and a value, with what follows them. -/
def entry? (value? : Reader Toml) (text : List Char) : Option (Entry × List Char) := do
  let (path, name, text) ← anyKey? text
  match text with
  | '=' :: text =>
    let (value, text) ← value? (dropBlanks text)
    return (⟨path, name, value⟩, text)
  | _ => none

/-- The entries of an inline table, of which there is at least one. -/
def entries? (value? : Reader Toml) : (fuel : Nat) → Reader (List Entry)
  | 0, _ => none
  | fuel + 1, text => do
    let (entry, text) ← entry? value? text
    match dropBlanks text with
    | ',' :: rest =>
      let (entries, rest) ← entries? value? fuel rest
      return (entry :: entries, rest)
    | '}' :: rest => return ([entry], rest)
    | _ => none

/-- An inline table after its brace. -/
def inlineTable? (value? : Reader Toml) (text : List Char) : Option (Toml × List Char) :=
  match dropBlanks text with
  | '}' :: rest => some (.table [], rest)
  | text => do
    let (entries, rest) ← entries? value? text.length text
    return (← tableOf? entries [], rest)

/-- The text after a given word. -/
def word? : List Char → List Char → Option (List Char)
  | [], text => some text
  | c :: word, d :: text => if c = d then word? word text else none
  | _ :: _, [] => none

/-- A value that is no container. -/
def scalar? (text : List Char) : Option (Toml × List Char) :=
  match text with
  | c :: _ =>
    if c = '"' ∨ c = '\'' then
      (string? text).map fun (found, rest) => (.string (String.ofList found), rest)
    else if c = 't' then (word? ['t', 'r', 'u', 'e'] text).map (.bool true, ·)
    else if c = 'f' then (word? ['f', 'a', 'l', 's', 'e'] text).map (.bool false, ·)
    else if c.isDigit ∨ c = '+' ∨ c = '-' then (dateTime? text).or (number? text)
    else if c = 'i' ∨ c = 'n' then number? text
    else none
  | [] => none

/-- A value with at most `depth` containers in one another. -/
def value? : (depth : Nat) → Reader Toml
  | 0, text => scalar? text
  | depth + 1, text =>
    match text with
    | '[' :: rest =>
      (itemsAfter? (value? depth) text.length rest).map fun (items, rest) => (.array items, rest)
    | '{' :: rest => inlineTable? (value? depth) rest
    | _ => scalar? text

/-- The text after the end of a line, before which blanks and a comment may stand. -/
def lineEnd? (text : List Char) : Option (List Char) :=
  let text := dropBlanks text
  let text := if text.head? = some '#' then text.dropWhile isPlain else text
  if text = [] then some [] else newline? text

/-- A line that is not empty. -/
inductive Line where
  | entry (e : Entry)
  | header (isElement : Bool) (path : List String) (name : String)

/-- A header after its first bracket. -/
def header? (isElement : Bool) (text : List Char) : Option (Line × List Char) := do
  let (path, name, text) ← anyKey? text
  match isElement, text with
  | true, ']' :: ']' :: text => return (.header true path name, text)
  | false, ']' :: text => return (.header false path name, text)
  | _, _ => none

/-- A line that is neither empty nor only a comment. -/
def line? (text : List Char) : Option (Line × List Char) :=
  match text with
  | '[' :: '[' :: rest => header? true rest
  | '[' :: rest => header? false rest
  | _ => do
    let (e, rest) ← entry? (value? (nestingLimit - 1)) text
    return (.entry e, rest)

/-- The lines of a document; each takes at least one character of `fuel`. -/
def lines? : (fuel : Nat) → List Char → Option (List Line)
  | 0, text => if dropBlanks text = [] then some [] else none
  | fuel + 1, text =>
    match dropBlanks text with
    | [] => some []
    | c :: rest =>
      if c = '#' ∨ c = '\n' ∨ c = '\r' then do lines? fuel (← lineEnd? (c :: rest))
      else do
        let (line, text) ← line? (c :: rest)
        let lines ← lines? fuel (← lineEnd? text)
        return line :: lines

/-- The entries before all headers, and the sections. -/
def sections : List Line → List Entry × List Section
  | [] => ([], [])
  | .entry e :: lines =>
    let (entries, sections) := sections lines
    (e :: entries, sections)
  | .header isElement path name :: lines =>
    let (entries, sections) := sections lines
    ([], ⟨isElement, path, name, entries⟩ :: sections)

/-- The text without a byte order mark at its start. -/
def dropMark : List Char → List Char
  | '\uFEFF' :: text => text
  | text => text

/-- The table that a document is. -/
def read? (text : List Char) : Option Toml := do
  let text := dropMark text
  let (entries, sections) := sections (← lines? text.length text)
  tableOf? entries sections

end ParseGoal.Toml
