import ParseGoal.Cache.Record
import ParseGoal.Digest.Sha256
import ParseGoal.Program

/-!
A directory of records, one file for each key. A record is written beside its place and then moved
there, so that a reader sees the old record or the new one. What cannot be read counts as absent.
-/
namespace ParseGoal

/-- The records in a directory, which is made when the first one is stored. -/
structure Cache where
  directory : Path

namespace Cache

/-- The name of a key's files, without what follows the dot. -/
def stem (key : String) : String := Sha256.hex (Sha256.hash (Utf8.ofString key))

/-- Where the record of a key is. -/
def recordPath (cache : Cache) (key : String) : Path := cache.directory.join (stem key ++ ".json")

/-- Where the record of a key is written first. -/
def draftPath (cache : Cache) (key word : String) : Path :=
  cache.directory.join (stem key ++ "." ++ word ++ ".tmp")

/-- Whether a record that is found for a key can be used. -/
def accepts (key : String) (r : Record) : Bool := r.version = Record.currentVersion ∧ r.key = key

/-- The record of a key. -/
def lookup (cache : Cache) (key : String) : Program (Option Record) := do
  match ← Program.request (.readFile (cache.recordPath key)) with
  | .ok bytes => return (Record.ofBytes? bytes).filter (accepts key)
  | .error _ => return none

/-- Puts a text at a place by way of a draft, of which nothing is left. -/
def place (draft path : Path) (text : String) : Action Unit := do
  let abandon (blamed : Path) (refusal : Refusal) : Action Unit := do
    let _ ← Action.ofProgram (Program.request (.removeFile draft))
    throw (.cacheWrite blamed refusal.reason)
  match ← Action.ofProgram (Program.request (.writeFile draft (Utf8.ofString text))) with
  | .error refusal => abandon draft refusal
  | .ok () =>
    match ← Action.ofProgram (Program.request (.rename draft path)) with
    | .error refusal => abandon path refusal
    | .ok () => return ()

/-- Stores what was found for a key, in place of its record. -/
def store (cache : Cache) (key : String) (goal : Goal) (fingerprint : Fingerprint) :
    Action Record := do
  let storedAt ← Action.ofProgram (Program.request .now)
  let record : Record := ⟨Record.currentVersion, key, goal, fingerprint, storedAt⟩
  Action.doing s!"creating cache directory {cache.directory}"
    (Program.request (.makeDirectories cache.directory))
  let word ← Action.ofProgram (Program.request .freshWord)
  place (cache.draftPath key word) (cache.recordPath key) record.text
  return record

/-- Removes a file and tells whether there was one; `what` says what is being done. -/
def removeFile (path : Path) (what : String) : Action Bool := do
  match ← Action.ofProgram (Program.request (.removeFile path)) with
  | .ok () => return true
  | .error .missing => return false
  | .error refusal => throw (.io what refusal.reason)

/-- Removes the record of a key and tells whether there was one. -/
def remove (cache : Cache) (key : String) : Action Bool :=
  let path := cache.recordPath key
  removeFile path s!"removing cache record {path}"

/-- The names in the directory; one that does not exist yet has none. -/
def names (cache : Cache) : Action (List String) := do
  match ← Action.ofProgram (Program.request (.listDirectory cache.directory)) with
  | .ok names => return names
  | .error .missing => return []
  | .error refusal => throw (.io "reading cache directory" refusal.reason)

/-- Removes the files of the given names that are records or drafts, and counts the records. -/
def clearEach (cache : Cache) : List String → Action Nat
  | [] => return 0
  | name :: rest => do
    let kind := Path.extension? name
    if kind = some "json" ∨ kind = some "tmp" then
      let path := cache.directory.join name
      Action.doing s!"removing cache record {path}" (Program.request (.removeFile path))
      let count ← cache.clearEach rest
      return if kind = some "json" then count + 1 else count
    else cache.clearEach rest

/-- Removes all records and drafts, and counts the records. -/
def clear (cache : Cache) : Action Nat := do cache.clearEach (← cache.names)

/-- The readable records among the files of the given names. -/
def readEach (cache : Cache) : List String → Program (List Record)
  | [] => return []
  | name :: rest => do
    if Path.extension? name = some "json" then
      let content ← Program.request (.readFile (cache.directory.join name))
      let found := content.toOption.bind Record.ofBytes?
      let more ← cache.readEach rest
      return (found.filter (·.version = Record.currentVersion)).toList ++ more
    else cache.readEach rest

/-- Whether a record goes before another one: it is not older. -/
def isBefore (r s : Record) : Bool := s.storedAt.isUpTo r.storedAt

/-- All readable records, the newest first. -/
def list (cache : Cache) : Action (List Record) := do
  let records ← Action.ofProgram (cache.readEach (← cache.names))
  return records.mergeSort isBefore

end Cache
end ParseGoal
