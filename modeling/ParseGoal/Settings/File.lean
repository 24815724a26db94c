import ParseGoal.Program
import ParseGoal.Settings.Text

/-! Settings in files. -/
namespace ParseGoal.Settings

/-- The settings in a file's content, whose order of goals must name none twice. -/
def ofContent (path : Path) (content : String) : Except Error Settings :=
  match ofText? content.toList with
  | none => .error (.configInvalid path "not a settings document")
  | some settings =>
    match settings.goalOrder with
    | .error e => .error (.configInvalid path e.message)
    | .ok _ => .ok settings

/-- Reads a file. -/
def loadFrom (path : Path) : Action Settings := do
  let content ← Action.doing s!"reading config from {path}" (Program.readText path)
  Action.ofExcept (ofContent path content)

/-- Reads a file, if it is there; else all settings have their defaults. -/
def load (path : Path) : Action Settings := do
  if ← Action.ofProgram (Program.pathExists path) then loadFrom path else return {}

/-- Writes a file, in a directory that is made if it is missing. -/
def save (settings : Settings) (path : Path) : Action Unit := do
  if let some directory := path.parent? then
    Action.orFail (Program.request (.makeDirectories directory)) fun refusal =>
      .configDirCreate directory refusal.reason
  let text ← Action.ofExcept settings.text
  Action.doing s!"writing config to {path}"
    (Program.request (.writeFile path (Utf8.ofString text)))

end ParseGoal.Settings
