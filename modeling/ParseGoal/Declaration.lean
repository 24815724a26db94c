import ParseGoal.Json.Canonical
import ParseGoal.Json.Reader
import ParseGoal.Json.Writer
import ParseGoal.Program

/-!
Declared goals: a file's extension declares one, or a field of the nearest manifest, which is the
first regular file of the manifest's name in the file's directory and those around it.
-/
namespace ParseGoal

/-- Where declarations are looked for. -/
structure Declaration where
  /-- Nothing is declared if this is off. -/
  enabled : Bool := true
  /-- The name of manifests. -/
  fileName : String := "package.json"
  /-- The field of a manifest that holds the goal. -/
  field : String := "type"
  /-- Whether extensions declare goals. -/
  extensions : Bool := true
  deriving DecidableEq

namespace Declaration

/-- Nothing is declared anywhere. -/
def disabled : Declaration := ⟨false, "", "", false⟩

/-- The goal that an extension declares. -/
def goalOfExtension? (path : Path) : Option Goal :=
  match path.extension? with
  | some "mjs" => some .module
  | some "cjs" => some .script
  | _ => none

/-- The goal that a field's value declares, or why it declares none. -/
def goalOfValue (field : String) : Json → Except String (Option Goal)
  | .null => .ok none
  | .string (some "module") => .ok (some .module)
  | .string (some "commonjs") => .ok (some .script)
  | .string (some "script") => .ok (some .script)
  | .string (some other) =>
    .error s!"\"{field}\" must be \"module\" or \"commonjs\", found \"{other}\""
  | other => .error s!"\"{field}\" must be a string, found {other.compact}"

/-- The goal that a manifest's content declares, or why it declares none. -/
def goalOfManifest (field : String) (content : String) : Except String (Option Goal) :=
  match (Json.read? content.toList).bind Json.canonical? with
  | none => .error "not a JSON value"
  | some (.object fields) =>
    match fields.lookup (some field) with
    | some value => goalOfValue field value
    | none => .ok none
  | some _ => .error "expected a JSON object"

/-- The first regular file of the manifest's name in some directories. -/
def findIn (d : Declaration) : List Path → Action (Option Path)
  | [] => return none
  | directory :: rest => do
    let candidate := directory.join d.fileName
    match ← Action.ofProgram (Program.request (.isFile candidate)) with
    | .ok true => return some candidate
    | .ok false => d.findIn rest
    | .error .missing => d.findIn rest
    | .error refusal => throw (.io s!"checking manifest {candidate}" refusal.reason)

/-- The manifest nearest to a file. -/
def nearest (d : Declaration) (path : Path) : Action (Option Path) :=
  match path.parent? with
  | some directory => d.findIn directory.ancestors
  | none => return none

/-- The goal declared for a file. An extension goes before a manifest. -/
def lookup (d : Declaration) (path : Path) : Action (Option Goal) := do
  if d.enabled then
    match if d.extensions then goalOfExtension? path else none with
    | some goal => return some goal
    | none =>
      match ← d.nearest path with
      | none => return none
      | some manifest =>
        let content ← Action.doing s!"reading manifest {manifest}" (Program.readText manifest)
        Action.ofExcept ((goalOfManifest d.field content).mapError (.manifestInvalid manifest))
  else return none

end Declaration
end ParseGoal
