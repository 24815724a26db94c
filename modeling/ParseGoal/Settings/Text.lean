import ParseGoal.Settings
import ParseGoal.Toml.Reader
import ParseGoal.Toml.Writer

/-!
Settings as texts. What a text does not mention has its default, and what it mentions beyond the
settings is passed over.
-/
namespace ParseGoal.Settings

/-- A field that is absent has a default; one that is present must have the right kind. -/
def fieldOr {α : Type} (default : α) (ofToml? : Toml → Option α) : Option Toml → Option α
  | none => some default
  | some value => ofToml? value

/-- A goal is its name, or a table with nothing but this name, for an empty table or array. -/
def goalOfToml? : Toml → Option Goal
  | .string name => Goal.ofName? name
  | .table [(name, .table [])] => Goal.ofName? name
  | .table [(name, .array [])] => Goal.ofName? name
  | _ => none

/-- Some goals. -/
def goalsOfToml? (value : Toml) : Option (List Goal) := do (← value.items?).mapM goalOfToml?

/-- An integer that is not negative. -/
def wordOfToml? (value : Toml) : Option UInt64 := value.nat?.map UInt64.ofNat

/-- The names of the fields of each section. -/
def generalNames : List String := ["log_format"]

@[inherit_doc generalNames] def policyNames : List String := ["order", "parse_timeout_ms", "jobs"]

@[inherit_doc generalNames] def cachingNames : List String := ["enabled", "dir"]

@[inherit_doc generalNames] def declarationNames : List String :=
  ["enabled", "file_name", "field", "extensions"]

/-- Settings of the whole program. -/
def generalOfToml? (value : Toml) : Option General := do
  match ← value.fields? generalNames with
  | [logFormat] => return { logFormat := ← fieldOr "text" Toml.text? logFormat }
  | _ => none

/-- How sources are resolved. -/
def policyOfToml? (value : Toml) : Option Policy := do
  match ← value.fields? policyNames with
  | [order, timeLimit, jobs] =>
    return {
      order := ← fieldOr Goal.all goalsOfToml? order
      timeLimit := ← fieldOr 0 wordOfToml? timeLimit
      jobs := ← fieldOr 0 wordOfToml? jobs }
  | _ => none

/-- How decisions are remembered. -/
def cachingOfToml? (value : Toml) : Option Caching := do
  match ← value.fields? cachingNames with
  | [enabled, directory] =>
    return {
      enabled := ← fieldOr true Toml.bool? enabled
      directory := ← fieldOr none (fun value => value.text?.map some) directory }
  | _ => none

/-- Where declarations are looked for. -/
def declarationOfToml? (value : Toml) : Option Declaration := do
  match ← value.fields? declarationNames with
  | [enabled, fileName, field, extensions] =>
    let standard : Declaration := {}
    return {
      enabled := ← fieldOr standard.enabled Toml.bool? enabled
      fileName := ← fieldOr standard.fileName Toml.text? fileName
      field := ← fieldOr standard.field Toml.text? field
      extensions := ← fieldOr standard.extensions Toml.bool? extensions }
  | _ => none

/-- The settings of a document. -/
def ofToml? : Toml → Option Settings
  | .table fields => do
    return {
      general := ← fieldOr {} generalOfToml? (fields.lookup "general")
      policy := ← fieldOr {} policyOfToml? (fields.lookup "resolver")
      caching := ← fieldOr {} cachingOfToml? (fields.lookup "cache")
      declaration := ← fieldOr {} declarationOfToml? (fields.lookup "manifest") }
  | _ => none

/-- The settings of a text. -/
def ofText? (text : List Char) : Option Settings := do ofToml? (← Toml.read? text)

/-- The sections that are written. -/
def sections (s : Settings) : List (String × List (String × Toml.Plain)) := [
  ("general", [("log_format", .text s.general.logFormat)]),
  ("resolver", [
    ("order", .texts (s.policy.order.map Goal.name)),
    ("parse_timeout_ms", .number s.policy.timeLimit.toNat),
    ("jobs", .number s.policy.jobs.toNat)]),
  ("cache", ("enabled", .flag s.caching.enabled) ::
    (s.caching.directory.map fun directory => ("dir", Toml.Plain.text directory)).toList),
  ("manifest", [
    ("enabled", .flag s.declaration.enabled),
    ("file_name", .text s.declaration.fileName),
    ("field", .text s.declaration.field),
    ("extensions", .flag s.declaration.extensions)])]

/-- Whether a number can be written. -/
def isWritable (n : UInt64) : Bool := n.toNat ≤ 9223372036854775807

/-- The settings as a text, unless a number is too large for one. -/
def text (s : Settings) : Except Error String :=
  if isWritable s.policy.timeLimit && isWritable s.policy.jobs then
    .ok (String.ofList (Toml.writeSections s.sections))
  else .error (.tomlSerialize "a number is out of range")

end ParseGoal.Settings
