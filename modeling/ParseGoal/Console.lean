import ParseGoal.CommandLine.Reader
import ParseGoal.Console.Records
import ParseGoal.Console.Resolutions
import ParseGoal.Settings.File

/-! Carrying out command lines. -/
namespace ParseGoal.Console

/-- Settings and the place that they come from. -/
structure Context where
  environment : Environment
  settingsPath : Path
  settings : Settings
  /-- The directory of the records that the command line gives. -/
  cacheDirectory : Option Path

/-- The records that a command works on. -/
def Context.cache (c : Context) : Cache :=
  ⟨c.settings.cacheDirectory c.environment c.cacheDirectory⟩

/-- Resolves files and shows what was found. -/
def resolveFiles (c : Context) (paths : List Path) (goal : Option Goal) (order : List Goal)
    (noCache : Bool) (format : Format) : Action Unit := do
  let resolver ← Action.ofExcept (FileResolver.ofSettings c.settings c.environment c.cacheDirectory)
  let resolver ← Action.ofExcept (resolver.withOrder order)
  let resolver := if noCache then resolver.withoutCache else resolver
  let results ← Action.ofProgram (resolver.resolveAll [] paths goal)
  Action.ofProgram (showResults results format)
  let failed := results.countP fun found => !isResolved found
  if 0 < failed then throw (.resolutionFailed failed results.length)

/-- Prints the settings. -/
def showSettings (settings : Settings) : Action Unit := do
  let text ← Action.ofExcept settings.text
  Action.ofProgram (Program.printLine text)

/-- Writes the default settings; those that are there already are kept unless `force` says otherwise. -/
def initSettings (path : Path) (force : Bool) : Action Unit := do
  if (← Action.ofProgram (Program.pathExists path)) && !force then
    Action.ofProgram (Program.printLine s!"! Config already exists at {path}")
    Action.ofProgram (Program.printLine "  Use --force to overwrite")
  else
    Settings.save {} path
    Action.ofProgram (Program.printLine s!"✓ Configuration initialized: {path}")

/-- Carries out a command. -/
def perform (c : Context) : Command → Action Unit
  | .resolve paths goal order noCache format => resolveFiles c paths goal order noCache format
  | .cacheList format => do
    let records ← c.cache.list
    Action.ofProgram (showRecords records format)
  | .cacheRemove path => removeRecord c.cache path
  | .cacheClear yes => clearRecords c.cache yes
  | .cachePath => Action.ofProgram (Program.printLine c.cache.directory)
  | .config => showSettings c.settings
  | .configShow => showSettings c.settings
  | .configPath => Action.ofProgram (Program.printLine c.settingsPath)
  | .configInit force => initSettings c.settingsPath force

/-- Loads the settings and carries out what a command line asks for. -/
def performLine (environment : Environment) (line : CommandLine) : Action Unit := do
  let path := line.config.getD environment.settingsFile
  let settings ← Settings.load path
  perform ⟨environment, path, settings, line.cacheDirectory⟩ line.command

/-- The version of the program. -/
def version : String := "0.1.0"

/-- Says that something failed, and what to do about it. -/
def reportError (e : Error) : Program Unit := do
  Program.reportLine s!"Error: {e.message}"
  if let some hint := e.hint? then Program.reportLine s!"Hint: {hint}"

/-- How the program is used. -/
def usage : String := "Usage: goalpost [OPTIONS] <resolve|cache|config>"

/-- Runs a command line; the result is the exit code. -/
def run (environment : Environment) (words : List String) : Program Nat := do
  match CommandLine.read environment words with
  | .error .help =>
    Program.printLine usage
    return 0
  | .error (.version level) =>
    Program.printLine s!"{level.title} {version}"
    return 0
  | .error _ =>
    Program.reportLine usage
    return 2
  | .ok line =>
    match ← (performLine environment line).run with
    | .ok () => return 0
    | .error e =>
      reportError e
      return 1

end ParseGoal.Console
