import ParseGoal.Ecma.Scan
import ParseGoal.Grammar

/-!
The probe: not a parser, but it finds what only one of the two goals accepts. It fails at the
earliest of the goal's first restriction and the scan's fault.
-/
namespace ParseGoal.Ecma

/-- What a source fails by. -/
inductive Violation where
  | fault (f : Fault)
  | restriction (r : Restriction)
  deriving DecidableEq

/-- The sentence that reports a violation. -/
def Violation.message : Violation → String
  | .fault f => f.message
  | .restriction r => r.message

/-- The restrictions of one goal. -/
def Scan.findingsOf (s : Scan) (goal : Goal) : List Finding :=
  s.findings.filter (·.what.goal = goal)

/-- What a scanned text fails by under a goal; a fault goes before a restriction at the same place. -/
def Scan.violation? (s : Scan) (goal : Goal) : Option (Located Violation) :=
  let restriction := (s.findingsOf goal).head?
  match s.fault, restriction with
  | some f, some r =>
    some (if r.offset < f.offset then ⟨r.offset, .restriction r.what⟩ else ⟨f.offset, .fault f.what⟩)
  | some f, none => some ⟨f.offset, .fault f.what⟩
  | none, some r => some ⟨r.offset, .restriction r.what⟩
  | none, none => none

/-- Whether a text passes under a goal. -/
def judge (text : List Char) (goal : Goal) : Verdict :=
  match (scan text).violation? goal with
  | some violation => .error ⟨.ofOffset text violation.offset, violation.what.message⟩
  | none => .ok ()

/-- The probe as a grammar. Bytes that are not UTF-8 fail at the first ill-formed sequence. -/
def probe : Grammar Id where
  name := "ecma-probe"
  attempt bytes goal :=
    match Utf8.decode bytes with
    | (text, []) => judge text goal
    | (text, _) => .error ⟨.ofOffset text (Text.byteSize text), "source is not valid UTF-8"⟩

end ParseGoal.Ecma
