import ParseGoal.Ecma.Lookahead
import ParseGoal.Ecma.Violation

/-! What a scan remembers of the text behind it, and what a word means there. -/
namespace ParseGoal.Ecma

/-- What an open bracket encloses. -/
inductive Enclosure where
  /-- Parentheses of a call, of parameters or around an expression. -/
  | group
  /-- Parentheses of a control statement's head. -/
  | controlHead
  | list
  /-- Braces of a block or an object. -/
  | block
  /-- Braces of a function, a method or an arrow. -/
  | functionBody
  | classBody
  /-- Braces after a dollar sign in a template. -/
  | substitution
  deriving DecidableEq

/-- The brackets around it. -/
def Enclosure.delimiter : Enclosure → Delimiter
  | .group | .controlHead => .round
  | .list => .square
  | .block | .functionBody | .classBody | .substitution => .curly

/-- An open bracket. -/
structure Frame where
  enclosure : Enclosure
  /-- The byte offset of the bracket; of a substitution, that of the template's backtick. -/
  start : Nat
  deriving DecidableEq

/-- The last token, as far as what follows depends on it. -/
inductive Token where
  | word (text : String)
  | literal
  /-- A closing bracket, except the one that ends a control statement's head. -/
  | close (d : Delimiter)
  | update
  | arrow
  | punctuator (c : Char)
  deriving DecidableEq

/-- What a scan remembers. -/
structure State where
  /-- The open brackets, innermost first. -/
  frames : List Frame := []
  previous : Option Token := none
  /-- A line ended since the last token. -/
  newlineBefore : Bool := false
  /-- No token stands on this line yet. -/
  lineStart : Bool := true
  /-- The last token was a word that opens a control statement's head. -/
  controlNext : Bool := false
  /-- How many brackets were open at the last class keyword that still waits for its body. -/
  classDepth : Option Nat := none
  /-- How many brackets were open at each arrow whose body is an expression, latest first. -/
  arrowDepths : List Nat := []
  deriving DecidableEq

/-- Words after which a slash starts a regular expression. -/
def regexWords : List String :=
  ["return", "typeof", "instanceof", "in", "of", "new", "delete", "void", "throw", "case", "do",
    "else", "yield", "await"]

/-- Words whose parentheses are the head of a statement. -/
def controlWords : List String := ["if", "while", "for", "with", "switch", "catch"]

/-- Words that strict code alone reserves. -/
def strictWords : List String :=
  ["implements", "interface", "package", "private", "protected", "public", "static"]

/-- Whether a slash after this token starts a regular expression. -/
def regexAfter : Option Token → Bool
  | none => true
  | some (.word text) => regexWords.contains text
  | some .literal | some .update => false
  | some (.close d) => d == .curly
  | some .arrow | some (.punctuator _) => true

namespace State

/-- The number of open brackets. -/
def depth (s : State) : Nat := s.frames.length

/-- What the next cut has to know. -/
def context (s : State) : Context where
  regexAllowed := regexAfter s.previous
  lineStart := s.lineStart
  inSubstitution := s.frames.head?.map Frame.enclosure == some .substitution

/-- After a token. -/
def afterToken (s : State) (token : Token) : State :=
  { s with previous := some token, newlineBefore := false, lineStart := false, controlNext := false }

/-- After the end of a line. -/
def afterNewline (s : State) : State := { s with newlineBefore := true, lineStart := true }

/-- Arrows that started at `depth` or deeper have ended. -/
def endArrows (s : State) (depth : Nat) : State :=
  { s with arrowDepths := s.arrowDepths.filter (· < depth) }

/-- One more open bracket. -/
def push (s : State) (enclosure : Enclosure) (start : Nat) : State :=
  { s with frames := ⟨enclosure, start⟩ :: s.frames }

/-- Whether the place is inside a function. -/
def inFunction (s : State) : Bool :=
  !s.arrowDepths.isEmpty || s.frames.any (·.enclosure == .functionBody)

/-- Whether a statement may start here, outside all brackets. -/
def atStatementStart (s : State) : Bool :=
  s.frames.isEmpty &&
    match s.previous with
    | none | some (.punctuator ';') | some (.close .curly) => true
    | some _ => s.newlineBefore

/-- What an opening bracket encloses. -/
def enclosureOf (s : State) : Delimiter → Enclosure
  | .round => if s.controlNext then .controlHead else .group
  | .square => .list
  | .curly =>
    if s.classDepth = some s.depth then .classBody
    else if s.previous = some (.close .round) ∨ s.previous = some .arrow then .functionBody
    else .block

/-- Whether the next word is a property name, after a point. -/
def afterPoint (s : State) : Bool := s.previous == some (.punctuator '.')

/-- Whether a strict word before `rest` names a binding: neither a key, nor a method, nor a class member. -/
def namesBinding (s : State) (rest : List Char) : Bool :=
  let next := nextSignificant rest
  if next = some ':' then false
  else
    match s.frames.head?.map Frame.enclosure with
    | some .classBody => false
    | some .block => next != some '('
    | _ => true

/-- The restriction that a word runs into, if it is no property name and `rest` follows it. -/
def restriction? (s : State) (word : String) (rest : List Char) : Option Restriction :=
  if word = "import" then
    if nextSignificant rest = some '(' then none
    else if nextSignificant rest = some '.' then some .importMeta
    else if s.atStatementStart then some .importDeclaration
    else none
  else if word = "export" then
    if s.atStatementStart then some .exportDeclaration else none
  else if word = "with" then
    if nextSignificant rest = some '(' then some .withStatement else none
  else if word = "await" then
    if s.inFunction then none
    else if s.previous = some (.word "for") then some .forAwait
    else if operandFollows rest then some .await
    else none
  else if word = "let" then
    if s.previous = some (.word "var") ∨ s.previous = some (.word "function") then
      some (.reservedWord word)
    else none
  else if strictWords.contains word ∧ s.namesBinding rest then some (.reservedWord word)
  else none

/-- Whether parentheses after a word are the head of a statement. -/
def opensHead (s : State) (word : String) : Bool :=
  controlWords.contains word || (word == "await" && s.previous == some (.word "for"))

/-- The state after a word. -/
def afterWord (s : State) (word : String) : State :=
  if s.afterPoint then s.afterToken (.word word)
  else
    { s.afterToken (.word word) with
      controlNext := s.opensHead word
      classDepth := if word = "class" then some s.depth else s.classDepth }

end State
end ParseGoal.Ecma
