import ParseGoal.Calendar.Text
import ParseGoal.Fingerprint
import ParseGoal.Goal
import ParseGoal.Json.Fields
import ParseGoal.Json.Reader
import ParseGoal.Json.Writer

/-! Records of decisions, and their form in files. -/
namespace ParseGoal

/-- A goal that was found for a source, with what the source looked like then. -/
structure Record where
  version : UInt32
  key : String
  goal : Goal
  fingerprint : Fingerprint
  storedAt : Instant
  deriving DecidableEq

namespace Record

/-- Records of another version are not understood. -/
def currentVersion : UInt32 := 1

/-- Whether a record still holds for a source. -/
def isValidFor (r : Record) (current : Fingerprint) : Bool := r.fingerprint = current

/-- The names of a fingerprint's fields. -/
def fingerprintNames : List String := ["hash", "len"]

/-- The names of a record's fields. -/
def names : List String := ["version", "key", "goal", "fingerprint", "stored_at"]

/-- A fingerprint as a value. -/
def fingerprintJson (f : Fingerprint) : Json :=
  .ofFields [("hash", .ofString f.hash), ("len", .ofNat f.len.toNat)]

/-- A record as a value. -/
def json (r : Record) : Json :=
  .ofFields [
    ("version", .ofNat r.version.toNat),
    ("key", .ofString r.key),
    ("goal", .ofString r.goal.name),
    ("fingerprint", fingerprintJson r.fingerprint),
    ("stored_at", .ofString (String.ofList r.storedAt.text))]

/-- A record as it is stored. -/
def text (r : Record) : String := r.json.pretty

/-- A goal is its name, or an object that has nothing but this name, with a null. -/
def goalOfJson? : Json → Option Goal
  | .string text => text.bind Goal.ofName?
  | .object [(name, .null)] => name.bind Goal.ofName?
  | _ => none

/-- The fingerprint of a value. -/
def fingerprintOfJson? (value : Json) : Option Fingerprint := do
  match ← value.fields? fingerprintNames with
  | [hash, len] => return ⟨← hash.text?, UInt64.ofNat (← len.natBelow? UInt64.size)⟩
  | _ => none

/-- The record of a value. -/
def ofJson? (value : Json) : Option Record := do
  match ← value.fields? names with
  | [version, key, goal, fingerprint, storedAt] =>
    return {
      version := UInt32.ofNat (← version.natBelow? UInt32.size)
      key := ← key.text?
      goal := ← goalOfJson? goal
      fingerprint := ← fingerprintOfJson? fingerprint
      storedAt := ← Instant.ofText? (← storedAt.text?).toList }
  | _ => none

/-- The record of a file's content. -/
def ofBytes? (bytes : Bytes) : Option Record := do
  ofJson? (← Json.read? (← Utf8.decode? bytes))

end Record
end ParseGoal
