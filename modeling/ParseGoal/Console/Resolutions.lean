import ParseGoal.CommandLine
import ParseGoal.FileResolver
import ParseGoal.Json.Writer

/-! Showing what was found for some files, as a table, as JSON, or as plain lines. -/
namespace ParseGoal.Console

/-- A text with blanks after it up to a width in characters; a longer text stays as it is. -/
def column (width : Nat) (text : String) : String :=
  text ++ String.ofList (List.replicate (width - text.length) ' ')

/-- The goals tried, in order. -/
def attemptsText (attempts : List Goal) : String := " > ".intercalate (attempts.map Goal.name)

/-- A file and what was found for it. -/
abbrev Found := Path × Except Error Outcome

/-- One line that reports a failure, with the place if there is one. -/
def failureText (path : Path) : Error → String
  | .rejected goal position reason declared =>
    let label := if declared then s!"{goal.name} (declared)" else goal.name
    s!"{path}:{position.text}: error: {label}: {reason}"
  | other => s!"{path}: error: {other.message}"

/-- The first line of the table. -/
def tableHead : String :=
  " ".intercalate [column 40 "PATH", column 8 "GOAL", column 10 "SOURCE", column 9 "CACHE",
    column 20 "ATTEMPTS"]

/-- A line of the table. -/
def tableRow (path : Path) (o : Outcome) : String :=
  " ".intercalate [column 40 path, column 8 o.resolution.goal.name,
    column 10 o.resolution.lead.kind, o.cache.name, column 20 (attemptsText o.resolution.attempts)]

/-- A line for a file; failures are reported apart. -/
def showEach (line : Path → Outcome → String) : List Found → Program Unit
  | [] => return ()
  | (path, .ok outcome) :: rest => do
    Program.printLine (line path outcome)
    showEach line rest
  | (path, .error e) :: rest => do
    Program.reportLine (failureText path e)
    showEach line rest

/-- Whether a file was resolved. -/
def isResolved (found : Found) : Bool := found.2.isOk

/-- A table with a line for each file that was resolved. -/
def showTable (results : List Found) : Program Unit := do
  Program.printLine tableHead
  Program.printLine (String.ofList (List.replicate 90 '-'))
  showEach tableRow results
  Program.printLine ""
  Program.printLine s!"{results.countP isResolved} of {results.length} file(s) resolved"

/-- What was found for a file, as JSON. -/
def foundJson : Found → Json
  | (path, .ok o) => .ofFields [
      ("path", .ofString path),
      ("goal", .ofString o.resolution.goal.name),
      ("source", .ofString o.resolution.lead.kind),
      ("cache", .ofString o.cache.name),
      ("attempts", .array (o.resolution.attempts.map fun goal => .ofString goal.name))]
  | (path, .error e) => .ofFields [("path", .ofString path), ("error", .ofString e.message)]

/-- A line with path and goal. -/
def plainRow (path : Path) (o : Outcome) : String := s!"{path}\t{o.resolution.goal.name}"

/-- Shows what was found in the form asked for. -/
def showResults (results : List Found) : Format → Program Unit
  | .table => showTable results
  | .json => Program.printLine (Json.pretty (.array (results.map foundJson)))
  | .plain => showEach plainRow results

end ParseGoal.Console
