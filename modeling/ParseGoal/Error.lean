import ParseGoal.Goal
import ParseGoal.Text.Position

/-! What can go wrong, as causes. The wording of each is in one place. -/
namespace ParseGoal

/-- Everything that an operation of this library can fail with. -/
inductive Error where
  /-- No candidate goal parses the source; the failure is that of the last one tried. -/
  | rejected (goal : Goal) (position : Position) (reason : String) (declared : Bool)
  /-- A text names no goal. -/
  | unknownGoal (text : String)
  /-- Some files of a batch failed. -/
  | resolutionFailed (failed total : Nat)
  | configInvalid (path reason : String)
  | configDirCreate (path cause : String)
  | goalOrderInvalid (reason : String)
  | manifestInvalid (path reason : String)
  | cacheWrite (path reason : String)
  /-- The file system refused; `doing` says what was being done. -/
  | io (doing cause : String)
  | pathNotFound (path : String)
  | json (reason : String)
  | tomlParse (reason : String)
  | tomlSerialize (reason : String)
  | internal (reason : String)
  deriving DecidableEq

namespace Error

/-- The one sentence that a person reads. -/
def message : Error → String
  | .rejected goal position reason true =>
    s!"SyntaxError at {position.text} (declared goal {goal.name}): {reason}"
  | .rejected goal position reason false =>
    s!"SyntaxError at {position.text} (goal {goal.name}): {reason}"
  | .unknownGoal text => s!"Unknown goal: {text} (expected one of: script, module)"
  | .resolutionFailed failed total => s!"{failed} of {total} file(s) failed to resolve"
  | .configInvalid path reason => s!"Invalid configuration at {path}: {reason}"
  | .configDirCreate path cause => s!"Failed to create config directory {path}: {cause}"
  | .goalOrderInvalid reason => s!"Invalid goal order: {reason}"
  | .manifestInvalid path reason => s!"Invalid manifest {path}: {reason}"
  | .cacheWrite path reason => s!"Failed to write cache record {path}: {reason}"
  | .io doing _ => s!"IO error: {doing}"
  | .pathNotFound path => s!"Path not found: {path}"
  | .json reason => s!"JSON error: {reason}"
  | .tomlParse reason => s!"TOML parse error: {reason}"
  | .tomlSerialize reason => s!"TOML serialize error: {reason}"
  | .internal reason => s!"Internal error: {reason}"

/-- Advice on what to do about it, where there is any. -/
def hint? : Error → Option String
  | .rejected _ _ _ true =>
    some "The goal was declared explicitly; fix the source or remove the declaration (package.json \"type\", .mjs/.cjs, --goal)"
  | .unknownGoal _ => some "Use one of: script, module"
  | .configInvalid _ _ => some "Run: goalpost config init --force"
  | .goalOrderInvalid _ => some "List each goal at most once, e.g. order = [\"script\", \"module\"]"
  | .cacheWrite _ _ => some "Run: goalpost cache clear --yes"
  | _ => none

/-- Whether a parse attempt was made and failed. -/
def isRejection : Error → Bool
  | .rejected .. => true
  | _ => false

end Error
end ParseGoal
