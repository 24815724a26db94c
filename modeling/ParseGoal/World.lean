import ParseGoal.Disk.Operations
import ParseGoal.Program

/-! Running programs in a world that is a value. -/
namespace ParseGoal

/-- All that a program can see and change. -/
structure World where
  disk : Disk := .empty
  /-- The working directory. -/
  cwd : Location := []
  /-- Nanoseconds since 1970. -/
  clock : Nat := 0
  /-- The number of the process, and how many fresh words it has had. -/
  process : Nat := 1
  freshWords : Nat := 0
  /-- The input that is not read yet. -/
  input : List Char := []
  output : String := ""
  reports : String := ""
  /-- How attempts with a deadline end. -/
  fate : Nat → Bytes → Goal → Fate := fun _ _ _ => .finishes

namespace World

/-- The time that the clock shows. A clock beyond the calendar shows its beginning. -/
def instant (w : World) : Instant := (Instant.ofUnix? w.clock).getD .epoch

/-- The clock moves on by a microsecond. -/
def tick (w : World) : World := { w with clock := w.clock + 1000 }

/-- The first line of a text with its end, and the rest. -/
def splitLine (text : List Char) : List Char × List Char :=
  let line := text.takeWhile (· ≠ '\n')
  let rest := text.dropWhile (· ≠ '\n')
  (line ++ rest.take 1, rest.drop 1)

/-- An answer together with a new disk. -/
def withDisk {α : Type} (w : World) (outcome : Disk.Outcome α) : Except Refusal α × World :=
  (outcome.1, { w with disk := outcome.2 })

/-- Answers one request. -/
def perform (w : World) : (r : Request) → r.Answer × World
  | .readFile path => (w.disk.read w.cwd path, w)
  | .writeFile path content => w.withDisk (w.disk.write w.cwd path content)
  | .makeDirectories path => w.withDisk (w.disk.makeDirectories w.cwd path)
  | .rename source target => w.withDisk (w.disk.rename w.cwd source target)
  | .removeFile path => w.withDisk (w.disk.remove w.cwd path)
  | .listDirectory path => (w.disk.list w.cwd path, w)
  | .isFile path => (w.disk.isFile w.cwd path, w)
  | .canonicalize path => (w.disk.canonical w.cwd path, w)
  | .workingDirectory => (w.cwd.path, w)
  | .now => (w.instant, w.tick)
  | .freshWord => (s!"{w.process}.{w.freshWords}", { w with freshWords := w.freshWords + 1 })
  | .readLine =>
    let (line, rest) := splitLine w.input
    (some (String.ofList line), { w with input := rest })
  | .print text => ((), { w with output := w.output ++ text })
  | .report text => ((), { w with reports := w.reports ++ text })
  | .fate limit source goal => (w.fate limit source goal, w)

/-- Runs a program to its end. -/
def run {α : Type} (w : World) : Program α → α × World
  | .done value => (value, w)
  | .ask request next =>
    let (answer, w) := w.perform request
    w.run (next answer)

end World
end ParseGoal
