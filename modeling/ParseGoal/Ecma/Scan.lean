import ParseGoal.Ecma.State
import ParseGoal.Text.Position

/-!
Scanning a text, lexeme by lexeme. A scan records every restriction it runs into, and ends at the
first fault or at the end of the text.
-/
namespace ParseGoal.Ecma

/-- A restriction at its place. -/
abbrev Finding := Located Restriction

/-- What one lexeme does: the restrictions it runs into, and the state after it or the fault it is. -/
structure Turn where
  findings : List Finding
  next : Except (Located Fault) State

namespace State

/-- The state after a stretch of template characters whose template starts at `start`. -/
def afterTemplate (s : State) (start : Nat) : TemplateStop → State
  | .close => s.afterToken .literal
  | .hole => (s.push .substitution start).afterToken (.punctuator '{')

/-- What a stretch of template characters does. -/
def takeTemplate (s : State) (start : Nat) : Option TemplateStop → Turn
  | none => ⟨[], .error ⟨start, .openTemplate⟩⟩
  | some stop => ⟨[], .ok (s.afterTemplate start stop)⟩

/-- What an opening bracket does. -/
def takeOpener (s : State) (start : Nat) (d : Delimiter) : State :=
  let enclosure := s.enclosureOf d
  let s := if enclosure = .classBody then { s with classDepth := none } else s
  (s.push enclosure start).afterToken (.punctuator d.opener)

/-- What a closing bracket does, unless it closes a substitution. -/
def takeCloser (s : State) (start : Nat) (d : Delimiter) : Except (Located Fault) State :=
  match s.frames with
  | [] => .error ⟨start, .unexpected d⟩
  | frame :: outer =>
    if frame.enclosure.delimiter = d then
      let s := { s with frames := outer }.endArrows (outer.length + 1)
      .ok (s.afterToken (if frame.enclosure = .controlHead then .punctuator d.closer else .close d))
    else .error ⟨start, .mismatched d frame.enclosure.delimiter⟩

/-- What the brace that closes a substitution does, with the template characters after it. -/
def takeTail (s : State) (start : Nat) (stop : Option TemplateStop) : Turn :=
  match s.frames with
  | [] => ⟨[], .error ⟨start, .unexpected .curly⟩⟩
  | frame :: outer =>
    ({ s with frames := outer }.endArrows (outer.length + 1)).takeTemplate frame.start stop

/-- What a lexeme at byte offset `start` does, when `rest` follows it. -/
def take (s : State) (start : Nat) (lexeme : Lexeme) (rest : List Char) : Turn :=
  match lexeme with
  | .lineBreak => ⟨[], .ok s.afterNewline⟩
  | .blank | .lineComment => ⟨[], .ok s⟩
  | .blockComment multiline => ⟨[], .ok (if multiline then s.afterNewline else s)⟩
  | .htmlComment => ⟨[⟨start, .htmlComment⟩], .ok s⟩
  | .openComment => ⟨[], .error ⟨start, .openComment⟩⟩
  | .string parts =>
    ⟨(octalOffsets (start + 1) parts).map (⟨·, .octalEscape⟩), .ok (s.afterToken .literal)⟩
  | .openString parts =>
    ⟨(octalOffsets (start + 1) parts).map (⟨·, .octalEscape⟩), .error ⟨start, .openString⟩⟩
  | .regex => ⟨[], .ok (s.afterToken .literal)⟩
  | .openRegex => ⟨[], .error ⟨start, .openRegex⟩⟩
  | .template stop => s.takeTemplate start stop
  | .templateTail stop => s.takeTail start stop
  | .opener d => ⟨[], .ok (s.takeOpener start d)⟩
  | .closer d => ⟨[], s.takeCloser start d⟩
  | .number legacy =>
    ⟨if legacy then [⟨start, .legacyNumber⟩] else [], .ok (s.afterToken .literal)⟩
  | .update => ⟨[], .ok (s.afterToken .update)⟩
  | .arrow =>
    let s := if nextSignificant rest = some '{' then s
      else { s with arrowDepths := s.depth :: s.arrowDepths }
    ⟨[], .ok (s.afterToken .arrow)⟩
  | .word text =>
    let found := if s.afterPoint then none else s.restriction? text rest
    ⟨found.toList.map (⟨start, ·⟩), .ok (s.afterWord text)⟩
  | .punctuator c =>
    let s := if c = ',' ∨ c = ';' then s.endArrows s.depth else s
    ⟨[], .ok (s.afterToken (.punctuator c))⟩

/-- The fault of a text that ends in this state: its innermost bracket is still open. -/
def unclosed? (s : State) : Option (Located Fault) :=
  s.frames.head?.map fun frame =>
    ⟨frame.start,
      if frame.enclosure = .substitution then .openTemplate
      else .unclosed frame.enclosure.delimiter⟩

end State

/-- What a scan finds. -/
structure Scan where
  /-- Every restriction the scan runs into, in order. -/
  findings : List Finding
  /-- The fault that ends the scan early or that its end shows. -/
  fault : Option (Located Fault)

/-- Findings before those of a scan. -/
def Scan.after (earlier : List Finding) (scan : Scan) : Scan :=
  { scan with findings := earlier ++ scan.findings }

/-- Scans a text that starts at byte offset `offset`, from a state. -/
def scanFrom (s : State) (offset : Nat) : List Char → Scan
  | [] => ⟨[], s.unclosed?⟩
  | c :: rest =>
    let piece := cut s.context c rest
    let turn := s.take offset piece.lexeme piece.rest
    match turn.next with
    | .error fault => ⟨turn.findings, some fault⟩
    | .ok s => (scanFrom s (offset + Text.byteSize piece.text) piece.rest).after turn.findings
termination_by text => text.length
decreasing_by exact cut_rest_length ..

/-- The line that names an interpreter, at the start of a text: a hash and an exclamation mark start it. -/
def interpreterLine (text : List Char) : List Char :=
  if ['#', '!'].isPrefixOf text then lineText text else []

/-- The text after the line that names an interpreter. -/
def afterInterpreterLine (text : List Char) : List Char :=
  if ['#', '!'].isPrefixOf text then afterLine text else text

/-- Scans a whole text. -/
def scan (text : List Char) : Scan :=
  scanFrom {} (Text.byteSize (interpreterLine text)) (afterInterpreterLine text)

end ParseGoal.Ecma
