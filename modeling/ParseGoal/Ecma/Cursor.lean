import ParseGoal.Ecma.Probe

/-!
The probe over bytes, with a cursor in them. Every index into the bytes and every slice of them is
checked: there is no result when one is out of range, when a slice of the text is off the boundaries
of characters, or when a loop never ends.
-/
namespace ParseGoal.Ecma

/-- The byte of a character in ASCII. -/
def byte (c : Char) : UInt8 := c.toNat.toUInt8

namespace Cursor

/-- The bytes from `start` to before `stop`. -/
def slice? (b : Bytes) (start stop : Nat) : Option Bytes :=
  if start ≤ stop ∧ stop ≤ b.length then some ((b.take stop).drop start) else none

/-- Whether a character starts here or the text ends. -/
def isBoundary (b : Bytes) (i : Nat) : Bool :=
  match b[i]? with
  | some x => x < 0x80 || 0xC0 ≤ x
  | none => i == b.length

/-- The text between two boundaries. -/
def textSlice? (b : Bytes) (start stop : Nat) : Option (List Char) :=
  if isBoundary b start ∧ isBoundary b stop then (slice? b start stop).bind Utf8.decode? else none

/-- The character that starts at a boundary. -/
def charAt? (b : Bytes) (i : Nat) : Option Char :=
  if isBoundary b i then (Utf8.next? (b.drop i)).map Prod.fst else none

/-- The byte before one. -/
def before? (b : Bytes) (i : Nat) : Option UInt8 := if i = 0 then none else b[i - 1]?

def isDigit (x : UInt8) : Bool := byte '0' ≤ x && x ≤ byte '9'

def isLetter (x : UInt8) : Bool :=
  (byte 'a' ≤ x && x ≤ byte 'z') || (byte 'A' ≤ x && x ≤ byte 'Z')

def startsWord (x : UInt8) : Bool := isLetter x || x == byte '_' || x == byte '$' || x == byte '\\'

def continuesWord (x : UInt8) : Bool := startsWord x || isDigit x

/-- Blanks that end no line. -/
def isBlank (x : UInt8) : Bool :=
  x == byte ' ' || x == byte '\t' || x == byte '\r' || x == byte '\x0b' || x == byte '\x0c'

/-- Where an asterisk and a slash stand first. -/
def closeAt? : Bytes → Option Nat
  | [] => none
  | x :: rest =>
    if x = byte '*' ∧ rest.head? = some (byte '/') then some 0 else (closeAt? rest).map (· + 1)

end ParseGoal.Ecma.Cursor

namespace ParseGoal.Bytes

open Ecma Ecma.Cursor

/-! The loops that a step of the scan runs. -/

/-- The end of the line. -/
def skipLine (b : Bytes) (pos : Nat) : Option Nat :=
  if pos < b.length then do
    let x ← b[pos]?
    if x = byte '\n' then some pos else b |>.skipLine (pos + 1)
  else some pos
partial_fixpoint

/-- The first byte that is neither blank nor in a comment. -/
def nextSignificant (b : Bytes) (i : Nat) : Option (Option UInt8) :=
  if i < b.length then do
    let x ← b[i]?
    if x = byte '\n' ∨ isBlank x then b |>.nextSignificant (i + 1)
    else if x = byte '/' ∧ b[i + 1]? = some (byte '/') then do
      let stop ← b.skipLine i
      b |>.nextSignificant stop
    else if x = byte '/' ∧ b[i + 1]? = some (byte '*') then do
      let body ← slice? b (i + 2) b.length
      match closeAt? body with
      | some stop => b |>.nextSignificant (i + 2 + stop + 2)
      | none => some none
    else some (some x)
  else some none
partial_fixpoint

/-- Whether an operand starts here without doubt, on the same line. -/
def operandFollows (b : Bytes) (i : Nat) : Option Bool :=
  if i < b.length then do
    let x ← b[i]?
    if x = byte ' ' ∨ x = byte '\t' then b |>.operandFollows (i + 1)
    else if x = byte '/' ∧ b[i + 1]? = some (byte '*') then do
      let body ← slice? b (i + 2) b.length
      match closeAt? body with
      | some stop => do
        let inside ← slice? b (i + 2) (i + 2 + stop)
        if inside.contains (byte '\n') then some false else b |>.operandFollows (i + 2 + stop + 2)
      | none => some false
    else if startsWord x then do
      let tail ← slice? b i b.length
      let word ← textSlice? b i (i + (tail.takeWhile continuesWord).length)
      some (!infixWords.contains (String.ofList word))
    else some (isDigit x || x == byte '\'' || x == byte '"' || x == byte '!' || x == byte '~')
  else some false
partial_fixpoint

/-- The end of the regular expression, without its flags; or where the line or the text ends first. -/
def regexEnd (b : Bytes) (inClass : Bool) (pos : Nat) : Option (Except Nat Nat) :=
  match b[pos]? with
  | none => some (.error pos)
  | some x =>
    if x = byte '\n' ∨ x = byte '\r' then some (.error pos)
    else if x = byte '\\' then b |>.regexEnd inClass (pos + 2)
    else if x = byte '[' then b |>.regexEnd true (pos + 1)
    else if x = byte ']' then b |>.regexEnd false (pos + 1)
    else if x = byte '/' ∧ inClass = false then some (.ok (pos + 1))
    else b |>.regexEnd inClass (pos + 1)
partial_fixpoint

/-- The end of the flags of a regular expression. -/
def flagsEnd (b : Bytes) (pos : Nat) : Option Nat :=
  match b[pos]? with
  | none => some pos
  | some x => if continuesWord x then b |>.flagsEnd (pos + 1) else some pos
partial_fixpoint

/-- The end of the number, from a byte of it on. -/
def numberEnd (b : Bytes) (hexadecimal : Bool) (pos : Nat) : Option Nat :=
  match b[pos]? with
  | none => some pos
  | some x =>
    if isLetter x || isDigit x || x == byte '_' || x == byte '.' then b |>.numberEnd hexadecimal (pos + 1)
    else if (x = byte '+' ∨ x = byte '-') ∧ hexadecimal = false then do
      let last ← before? b pos
      if last = byte 'e' ∨ last = byte 'E' then b |>.numberEnd hexadecimal (pos + 1) else some pos
    else some pos
partial_fixpoint

/-- The end of the word, from a byte of it on. -/
def wordEnd (b : Bytes) (pos : Nat) : Option Nat :=
  match b[pos]? with
  | none => some pos
  | some x =>
    if continuesWord x then b |>.wordEnd (pos + 1)
    else if 0x80 ≤ x then
      match charAt? b pos with
      | some c => if Text.isAlphanumeric c then b |>.wordEnd (pos + c.utf8Size) else some pos
      | none => some pos
    else some pos
partial_fixpoint

end ParseGoal.Bytes

namespace ParseGoal.Ecma

/-- A cursor, with what has been found before it. -/
structure Cursor where
  pos : Nat
  state : State := {}
  /-- The first construct that scripts reject. -/
  scriptError : Option Finding := none
  /-- The first construct that modules reject. -/
  moduleError : Option Finding := none

namespace Cursor

/-- Where a step leads, or the fault that ends the scan. -/
abbrev Outcome := Except (Cursor × Located Fault) Cursor

def seek (m : Cursor) (pos : Nat) : Cursor := { m with pos := pos }

def token (m : Cursor) (t : Token) : Cursor := { m with state := m.state.afterToken t }

def newline (m : Cursor) : Cursor := { m with state := m.state.afterNewline }

/-- Notes a construct under the goal that rejects it, unless there was one before. -/
def record (m : Cursor) (x : Finding) : Cursor :=
  match x.what.goal with
  | .script => { m with scriptError := m.scriptError <|> some x }
  | .module => { m with moduleError := m.moduleError <|> some x }

/-- The first construct that a goal rejects. -/
def errorOf (m : Cursor) : Goal → Option Finding
  | .script => m.scriptError
  | .module => m.moduleError

def fail (m : Cursor) (start : Nat) (fault : Fault) : Outcome := .error (m, ⟨start, fault⟩)

variable (b : Bytes)

/-- A block comment that starts at `start`. -/
def blockComment (start : Nat) (m : Cursor) : Option Outcome := do
  let body ← slice? b (start + 2) b.length
  match closeAt? body with
  | some stop => do
    let inside ← slice? body 0 stop
    let m := if inside.contains (byte '\n') then m.newline else m
    some (.ok (m.seek (start + 2 + stop + 2)))
  | none => some (m.fail start .openComment)

/-- A comment in the style of HTML. -/
def htmlComment (start : Nat) (m : Cursor) : Option Outcome := do
  let stop ← b.skipLine m.pos
  some (.ok ((m.record ⟨start, .htmlComment⟩).seek stop))

/-- What an escape in a string adds: an octal one is noted, and a line may go on behind two bytes. -/
def stringEscape (m : Cursor) : Cursor :=
  let next := b[m.pos + 1]?
  if next.any fun x => isDigit x && x != byte '0' then
    (m.record ⟨m.pos, .octalEscape⟩).seek (m.pos + 2)
  else if next = some (byte '0') ∧ b[m.pos + 2]?.any isDigit then
    (m.record ⟨m.pos, .octalEscape⟩).seek (m.pos + 2)
  else if next = some (byte '\r') ∧ b[m.pos + 2]? = some (byte '\n') then m.seek (m.pos + 3)
  else m.seek (m.pos + 2)

/-- The string that starts at `start`, from the cursor on. -/
def string (quote : UInt8) (start : Nat) (m : Cursor) : Option Outcome :=
  match b[m.pos]? with
  | none => some (m.fail start .openString)
  | some x =>
    if x = byte '\n' ∨ x = byte '\r' then some (m.fail start .openString)
    else if x = byte '\\' then m.stringEscape b |>.string quote start
    else if x = quote then some (.ok (m.seek (m.pos + 1)))
    else m.seek (m.pos + 1) |>.string quote start
partial_fixpoint

/-- The characters of the template that starts at `start`, from the cursor on. -/
def template (start : Nat) (m : Cursor) : Option Outcome :=
  match b[m.pos]? with
  | none => some (m.fail start .openTemplate)
  | some x =>
    if x = byte '\\' then m.seek (m.pos + 2) |>.template start
    else if x = byte '\x60' then some (.ok ((m.seek (m.pos + 1)).token .literal))
    else if x = byte '$' ∧ b[m.pos + 1]? = some (byte '{') then
      let m := m.seek (m.pos + 2)
      some (.ok (Cursor.token { m with state := m.state.push .substitution start } (.punctuator '{')))
    else m.seek (m.pos + 1) |>.template start
partial_fixpoint

/-- The regular expression that starts at `start`. -/
def regex (start : Nat) (m : Cursor) : Option Outcome := do
  match ← b.regexEnd false (m.pos + 1) with
  | .error pos => some ((m.seek pos).fail start .openRegex)
  | .ok pos => do
    let stop ← b.flagsEnd pos
    some (.ok ((m.seek stop).token .literal))

/-- An opening bracket. -/
def opens (d : Delimiter) (start : Nat) (m : Cursor) : Option Outcome := do
  let enclosure := m.state.enclosureOf d
  let s := if enclosure = .classBody then { m.state with classDepth := none } else m.state
  let x ← b[start]?
  some (.ok (Cursor.token { m with pos := m.pos + 1, state := s.push enclosure start }
    (.punctuator (Char.ofNat x.toNat))))

/-- A closing bracket. -/
def closes (d : Delimiter) (start : Nat) (m : Cursor) : Option Outcome :=
  match m.state.frames with
  | [] => some (m.fail start (.unexpected d))
  | frame :: outer =>
    let popped := { m.state with frames := outer }
    let ended := { m with pos := m.pos + 1, state := popped.endArrows (popped.depth + 1) }
    if frame.enclosure = .substitution ∧ d = .curly then template b frame.start ended
    else if frame.enclosure.delimiter = d then
      some (.ok (ended.token
        (if frame.enclosure = .controlHead then .punctuator d.closer else .close d)))
    else some (Cursor.fail { m with state := popped } start (.mismatched d frame.enclosure.delimiter))

/-- A number. -/
def number (start : Nat) (m : Cursor) : Option Outcome := do
  let first ← b[start]?
  let next := b[m.pos + 1]?
  let legacy := first = byte '0' ∧ next.any isDigit
  let hexadecimal := first = byte '0' ∧ next.any fun x => x == byte 'x' || x == byte 'X'
  let stop ← b.numberEnd (decide hexadecimal) (m.pos + 1)
  let m := m.seek stop
  let m := if legacy then m.record ⟨start, .legacyNumber⟩ else m
  some (.ok (m.token .literal))

/-- A word that strict code reserves, where it names a binding. -/
def namesBinding (m : Cursor) : Option Bool := do
  let next ← b.nextSignificant m.pos
  if next = some (byte ':') then some false
  else
    match m.state.frames.head?.map Frame.enclosure with
    | some .classBody => some false
    | some .block => some (next != some (byte '('))
    | _ => some true

/-- The restriction that a word runs into. -/
def keyword (word : String) (m : Cursor) : Option (Option Restriction) :=
  if word = "import" then do
    let next ← b.nextSignificant m.pos
    if next = some (byte '(') then some none
    else if next = some (byte '.') then some (some .importMeta)
    else if m.state.atStatementStart then some (some .importDeclaration)
    else some none
  else if word = "export" then
    some (if m.state.atStatementStart then some .exportDeclaration else none)
  else if word = "with" then do
    let next ← b.nextSignificant m.pos
    some (if next = some (byte '(') then some .withStatement else none)
  else if word = "await" then
    if m.state.inFunction then some none
    else if m.state.previous = some (.word "for") then some (some .forAwait)
    else do
      let operand ← b.operandFollows m.pos
      some (if operand then some .await else none)
  else if word = "let" then
    some (if m.state.previous = some (.word "var") ∨ m.state.previous = some (.word "function") then
      some (.reservedWord word)
    else none)
  else if strictWords.contains word then do
    let binding ← m.namesBinding b
    some (if binding then some (.reservedWord word) else none)
  else some none

/-- A word. -/
def word (start : Nat) (m : Cursor) : Option Outcome := do
  let stop ← b.wordEnd m.pos
  let text ← textSlice? b start stop
  let word := String.ofList text
  let m := m.seek stop
  let found ← if m.state.afterPoint then some none else m.keyword b word
  let noted := found.elim m fun r => m.record ⟨start, r⟩
  some (.ok { noted with state := noted.state.afterWord word })

/-- Whether some bytes start at `start`. -/
def startsAt (start : Nat) (p : Bytes) : Option Bool := do
  let tail ← slice? b start b.length
  some (p.isPrefixOf tail)

/-- A character above ASCII. -/
def wide (start : Nat) (m : Cursor) : Option Outcome :=
  match charAt? b m.pos with
  | some c =>
    let after := m.seek (m.pos + c.utf8Size)
    if c = '\u2028' ∨ c = '\u2029' then some (.ok after.newline)
    else if Text.isBlank c ∨ c = '\ufeff' then some (.ok after)
    else if Text.isAlphabetic c then word b start m
    else some (.ok (after.token (.punctuator c)))
  | none => some (.ok (m.seek (m.pos + 1)))

/-- Whether a comment in the style of HTML starts at `start`, with the byte `x`. -/
def startsHtml (x : UInt8) (start : Nat) (m : Cursor) : Option Bool :=
  if x = byte '<' then startsAt b start (Utf8.ofString "<!--")
  else if x = byte '-' ∧ m.state.lineStart then startsAt b start (Utf8.ofString "-->")
  else some false

/-- A step at the byte `x` of a number, of a word or of a sign. -/
def stepOther (x : UInt8) (start : Nat) (m : Cursor) : Option Outcome :=
  let next := b[start + 1]?
  if isDigit x ∨ (x = byte '.' ∧ next.any isDigit) then m.number b start
  else if (x = byte '+' ∨ x = byte '-') ∧ next = some x then
    some (.ok ((m.seek (start + 2)).token .update))
  else if x = byte '=' ∧ next = some (byte '>') then do
    let m := m.seek (start + 2)
    let significant ← b.nextSignificant m.pos
    let s := if significant = some (byte '{') then m.state
      else { m.state with arrowDepths := m.state.depth :: m.state.arrowDepths }
    some (.ok (Cursor.token { m with state := s } .arrow))
  else if startsWord x then m.word b start
  else if 0x80 ≤ x then m.wide b start
  else
    let s := if x = byte ',' ∨ x = byte ';' then m.state.endArrows m.state.depth else m.state
    some (.ok (Cursor.token { m with pos := start + 1, state := s } (.punctuator (Char.ofNat x.toNat))))

/-- A step at a byte that neither blanks nor comments nor slashes start with. -/
def stepToken (x : UInt8) (start : Nat) (m : Cursor) : Option Outcome :=
  if x = byte '\'' ∨ x = byte '"' then do
    match ← string b x start (m.seek (start + 1)) with
    | .ok m => some (.ok (m.token .literal))
    | .error fault => some (.error fault)
  else if x = byte '\x60' then template b start (m.seek (start + 1))
  else if x = byte '(' then m.opens b .round start
  else if x = byte '[' then m.opens b .square start
  else if x = byte '{' then m.opens b .curly start
  else if x = byte ')' then m.closes b .round start
  else if x = byte ']' then m.closes b .square start
  else if x = byte '}' then m.closes b .curly start
  else m.stepOther b x start

/-- One step of the scan, at a byte of the text. -/
def step (m : Cursor) : Option Outcome := do
  let start := m.pos
  let x ← b[start]?
  let next := b[start + 1]?
  let html ← m.startsHtml b x start
  if x = byte '\n' then some (.ok (m.seek (start + 1)).newline)
  else if isBlank x then some (.ok (m.seek (start + 1)))
  else if x = byte '/' ∧ next = some (byte '/') then do
    let stop ← b.skipLine start
    some (.ok (m.seek stop))
  else if x = byte '/' ∧ next = some (byte '*') then m.blockComment b start
  else if x = byte '/' then
    if regexAfter m.state.previous then m.regex b start
    else
      let stop := if next = some (byte '=') then start + 2 else start + 1
      some (.ok ((m.seek stop).token (.punctuator '/')))
  else if html then m.htmlComment b start
  else m.stepToken b x start

/-- The scan from the cursor to the end, or to the fault that ends it. -/
def run (m : Cursor) : Option (Cursor × Option (Located Fault)) :=
  if m.pos < b.length then do
    match ← m.step b with
    | .ok m => m |>.run
    | .error (m, fault) => some (m, some fault)
  else some (m, m.state.unclosed?)
partial_fixpoint

/-- Where the scan starts: behind the line that names an interpreter. -/
def start : Option Cursor := do
  let pos ← if (Utf8.ofString "#!").isPrefixOf b then b.skipLine 0 else some 0
  some { pos := pos }

/-- The earlier of the fault and a goal's first error; the fault, if both are at the same place. -/
def earliest (fault : Option (Located Fault)) (error : Option Finding) : Option (Located Violation) :=
  match fault, error with
  | some f, some r =>
    some (if r.offset < f.offset then ⟨r.offset, .restriction r.what⟩ else ⟨f.offset, .fault f.what⟩)
  | some f, none => some ⟨f.offset, .fault f.what⟩
  | none, error => error.map fun r => ⟨r.offset, .restriction r.what⟩

/-- An attempt of the probe. -/
def attempt (source : Bytes) (goal : Goal) : Option Verdict :=
  match Utf8.decode source with
  | (text, []) => do
    let m ← start source
    let (m, fault) ← m.run source
    some (match earliest fault (m.errorOf goal) with
      | some violation => .error ⟨.ofOffset text violation.offset, violation.what.message⟩
      | none => .ok ())
  | (text, _) => do
    let valid := Text.byteSize text
    let well ← slice? source 0 valid
    some (.error ⟨.ofOffset ((Utf8.decode? well).getD []) valid, "source is not valid UTF-8"⟩)

end Cursor
end ParseGoal.Ecma
