import ParseGoal.Cache.Store
import ParseGoal.CommandLine
import ParseGoal.Console.Resolutions

/-! Showing and removing records. -/
namespace ParseGoal.Console

/-- The first line of the table of records. -/
def recordHead : String := " ".intercalate [column 50 "SOURCE", column 8 "GOAL", column 20 "STORED"]

/-- A line of the table of records. -/
def recordRow (r : Record) : String :=
  " ".intercalate [column 50 r.key, column 8 r.goal.name,
    column 20 (String.ofList r.storedAt.shortText)]

/-- Prints some lines. -/
def printLines : List String → Program Unit
  | [] => return ()
  | line :: rest => do
    Program.printLine line
    printLines rest

/-- Shows some records in the form asked for. -/
def showRecords (records : List Record) : Format → Program Unit
  | .table =>
    if records = [] then Program.printLine "No cached goals."
    else
      printLines ([recordHead, String.ofList (List.replicate 80 '-')] ++ records.map recordRow ++
        ["", s!"Total: {records.length} record(s)"])
  | .json => Program.printLine (Json.pretty (.array (records.map Record.json)))
  | .plain => printLines (records.map fun r => s!"{r.key}\t{r.goal.name}")

/-- The key of a file: its canonical path, or the path from the working directory if it is gone. -/
def keyOf (path : Path) : Action String := do
  try SourceUnit.keyOf path
  catch
    | .pathNotFound _ => return (← Action.ofProgram (Program.request .workingDirectory)).join path
    | e => throw e

/-- Removes the record of a file. -/
def removeRecord (cache : Cache) (path : Path) : Action Unit := do
  let key ← keyOf path
  if ← cache.remove key then
    Action.ofProgram (Program.printLine s!"✓ removed cache record for {key}")
  else Action.ofProgram (Program.printLine s!"No cache record for {key}")

/-- Whether an answer agrees: it is the letter `y`, with blanks around it. -/
def agrees (answer : String) : Bool := (Text.trim answer.toList).map Char.toLower = ['y']

/-- Removes all records and says how many there were. -/
def removeAll (cache : Cache) : Action Unit := do
  let removed ← cache.clear
  Action.ofProgram (Program.printLine s!"✓ cleared {removed} record(s)")

/-- Removes all records, unless an answer that is asked for does not agree. -/
def clearRecords (cache : Cache) (yes : Bool) : Action Unit := do
  let records ← cache.list
  if records = [] then Action.ofProgram (Program.printLine "No cached goals to clear.")
  else if yes then removeAll cache
  else
    Action.ofProgram (Program.request (.print
      s!"This will remove {records.length} cache record(s). Are you sure? [y/N] "))
    match ← Action.ofProgram (Program.request .readLine) with
    | none => Action.ofProgram (Program.printLine "Failed to read input, aborting.")
    | some answer =>
      if agrees answer then removeAll cache else Action.ofProgram (Program.printLine "Aborted.")

end ParseGoal.Console
