import ParseGoal.Console
import Std.Time.DateTime.Timestamp

/-! The program: requests are answered by the machine that it runs on. -/
namespace ParseGoal.Main

/-- Why the machine refused. -/
def refusal (e : IO.Error) : Refusal :=
  match e with
  | .noFileOrDirectory .. => .missing
  | .alreadyExists .. => .present
  | other => .other (toString other)

/-- What the machine did, or why it refused. -/
def attempt {α : Type} (action : IO α) : IO (Except Refusal α) := do
  try return .ok (← action)
  catch e => return .error (refusal e)

/-- Whether what a path leads to is a regular file. -/
def isFile (path : Path) : IO Bool := do
  match (← (← IO.FS.realPath path).metadata).type with
  | .file => return true
  | _ => return false

/-- The names in a directory. -/
def names (path : Path) : IO (List String) := do
  return (← (← IO.FS.realPath path).readDir).toList.map (·.fileName)

/-- Waits for a task for some milliseconds. -/
def fateWithin {α : Type} (task : Task α) : (milliseconds : Nat) → IO Fate
  | 0 => do return if ← IO.hasFinished task then .finishes else .timesOut
  | rest + 1 => do
    if ← IO.hasFinished task then return .finishes
    IO.sleep 1
    fateWithin task rest

/-- How an attempt of the probe ends. -/
def fate (limit : Nat) (source : Bytes) (goal : Goal) : IO Fate := do
  let task ← IO.asTask (do return (Ecma.probe.attempt source goal).isOk)
  fateWithin task limit

/-- The time. -/
def now : IO Instant := do
  let nanoseconds := (← Std.Time.Timestamp.now).toNanosecondsSinceUnixEpoch.toInt.toNat
  return (Instant.ofUnix? nanoseconds).getD .epoch

/-- A line of the input, if it is text. -/
def readLine : IO (Option String) := do
  try return some (← (← IO.getStdin).getLine)
  catch _ => return none

/-- Writes a text at once. -/
def write (stream : IO.FS.Stream) (text : String) : IO Unit := do
  stream.putStr text
  stream.flush

/-- Answers one request. -/
def perform : (r : Request) → IO r.Answer
  | .readFile path => attempt do return (← IO.FS.readBinFile path).toList
  | .writeFile path content => attempt (IO.FS.writeBinFile path ⟨content.toArray⟩)
  | .makeDirectories path => attempt (if path.isEmpty then pure () else IO.FS.createDirAll path)
  | .rename source target => attempt (IO.FS.rename source target)
  | .removeFile path => attempt (IO.FS.removeFile path)
  | .listDirectory path => attempt (names path)
  | .isFile path => attempt (isFile path)
  | .canonicalize path => attempt do return (← IO.FS.realPath path).toString
  | .workingDirectory => do return (← IO.currentDir).toString
  | .now => now
  | .freshWord => do return s!"{← IO.rand 0 999999999}.{← IO.monoNanosNow}"
  | .readLine => readLine
  | .print text => do write (← IO.getStdout) text
  | .report text => do write (← IO.getStderr) text
  | .fate limit source goal => fate limit source goal

/-- Runs a program to its end. -/
def run {α : Type} : Program α → IO α
  | .done value => return value
  | .ask request next => do run (next (← perform request))

/-- The variables that the program looks at. -/
def watched : List String :=
  ["HOME", "XDG_CONFIG_HOME", "XDG_CACHE_HOME", "XDG_DATA_HOME", "GOALPOST_CONFIG",
    "GOALPOST_CACHE_DIR"]

/-- The environment that the program was started with. -/
def environment : IO Environment := do
  let values ← watched.filterMapM fun name => do
    return (← IO.getEnv name).map (name, ·)
  return ⟨values⟩

end ParseGoal.Main

/-- Runs the command line that is given. -/
def main (words : List String) : IO UInt32 := do
  let code ← ParseGoal.Main.run (ParseGoal.Console.run (← ParseGoal.Main.environment) words)
  return UInt32.ofNat code
