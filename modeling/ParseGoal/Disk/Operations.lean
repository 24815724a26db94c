import ParseGoal.Disk.Walk

/-! Operations on files and directories by path. Those that change the disk also return the new one. -/
namespace ParseGoal.Disk

/-- The answer of an operation, and the disk after it. -/
abbrev Outcome (α : Type) := Except Refusal α × Disk

/-- What a path leads to, links followed. -/
def locate (disk : Disk) (cwd : Location) (path : Path) : Except Refusal (Location × Entry) := do
  match ← disk.find true cwd path with
  | .taken place entry => return (place, entry)
  | .free _ _ => .error .missing

/-- The content of a file. -/
def read (disk : Disk) (cwd : Location) (path : Path) : Except Refusal Bytes := do
  match ← disk.locate cwd path with
  | (_, .file content) => return content
  | (_, .directory) => .error .isDirectory
  | (_, .link _) => .error .tooManyLinks

/-- The names in a directory. -/
def list (disk : Disk) (cwd : Location) (path : Path) : Except Refusal (List String) := do
  match ← disk.locate cwd path with
  | (place, .directory) => return disk.names place
  | _ => .error .notDirectory

/-- Whether a path leads to a regular file; it is refused if it leads nowhere. -/
def isFile (disk : Disk) (cwd : Location) (path : Path) : Except Refusal Bool := do
  match ← disk.locate cwd path with
  | (_, .file _) => return true
  | _ => return false

/-- Whether a path leads to a directory. -/
def isDirectory (disk : Disk) (cwd : Location) (path : Path) : Bool :=
  match disk.locate cwd path with
  | .ok (_, .directory) => true
  | _ => false

/-- The absolute path without links, dots and repeated slashes. -/
def canonical (disk : Disk) (cwd : Location) (path : Path) : Except Refusal Path := do
  return (← disk.locate cwd path).1.path

/-- Writes a file, in place of one that is there. -/
def write (disk : Disk) (cwd : Location) (path : Path) (content : Bytes) : Outcome Unit :=
  match disk.find true cwd path with
  | .ok (.taken place (.file _)) => (.ok (), disk.put place (.file content))
  | .ok (.taken _ _) => (.error .isDirectory, disk)
  | .ok (.free place slash) =>
    if slash then (.error .isDirectory, disk) else (.ok (), disk.put place (.file content))
  | .error refusal => (.error refusal, disk)

/-- The path without slashes at its end. -/
def withoutSlash (path : Path) : Path :=
  match (path.toList.reverse.dropWhile (· = '/')).reverse with
  | [] => path
  | text => String.ofList text

/-- Puts an entry where nothing is yet. -/
def create (disk : Disk) (cwd : Location) (path : Path) (entry : Entry) : Outcome Unit :=
  match disk.find false cwd path with
  | .ok (.taken _ _) => (.error .present, disk)
  | .ok (.free place _) => (.ok (), disk.put place entry)
  | .error refusal => (.error refusal, disk)

/-- Makes a directory. -/
def makeDirectory (disk : Disk) (cwd : Location) (path : Path) : Outcome Unit :=
  disk.create cwd (withoutSlash path) .directory

/-- Makes the first of some paths a directory, after the others if it has to; each is the parent of the one before. -/
def makeEach (disk : Disk) (cwd : Location) : List Path → Outcome Unit
  | [] => (.error .missing, disk)
  | path :: above =>
    if path.isEmpty then (.ok (), disk)
    else
      match disk.makeDirectory cwd path with
      | (.ok (), disk) => (.ok (), disk)
      | (.error .missing, disk) =>
        match disk.makeEach cwd above with
        | (.ok (), disk) => settle disk path (disk.makeDirectory cwd path)
        | failed => failed
      | failed => settle disk path failed
where
  /-- What is a directory already counts as made. -/
  settle (disk : Disk) (path : Path) : Outcome Unit → Outcome Unit
    | (.ok (), disk) => (.ok (), disk)
    | (.error refusal, after) =>
      if disk.isDirectory cwd path then (.ok (), after) else (.error refusal, after)

/-- Makes a directory and those around it, as far as they are missing. -/
def makeDirectories (disk : Disk) (cwd : Location) (path : Path) : Outcome Unit :=
  disk.makeEach cwd (Path.ancestors path)

/-- Moves a file or link, in place of one that is there. Directories are neither moved nor replaced. -/
def rename (disk : Disk) (cwd : Location) (source target : Path) : Outcome Unit :=
  match disk.find false cwd source, disk.find false cwd target with
  | .error refusal, _ => (.error refusal, disk)
  | .ok (.free _ _), _ => (.error .missing, disk)
  | .ok (.taken _ .directory), _ => (.error .isDirectory, disk)
  | .ok (.taken _ _), .error refusal => (.error refusal, disk)
  | .ok (.taken _ _), .ok (.taken _ .directory) => (.error .isDirectory, disk)
  | .ok (.taken place entry), .ok (.taken other _) => (.ok (), (disk.erase place).put other entry)
  | .ok (.taken place entry), .ok (.free other slash) =>
    if slash then (.error .notDirectory, disk) else (.ok (), (disk.erase place).put other entry)

/-- Removes a file or link. -/
def remove (disk : Disk) (cwd : Location) (path : Path) : Outcome Unit :=
  match disk.find false cwd path with
  | .ok (.taken _ .directory) => (.error .isDirectory, disk)
  | .ok (.taken place _) => (.ok (), disk.erase place)
  | .ok (.free _ _) => (.error .missing, disk)
  | .error refusal => (.error refusal, disk)

/-- Removes a file, a link, or a directory with all that is in it. -/
def removeTree (disk : Disk) (cwd : Location) (path : Path) : Outcome Unit :=
  match disk.find false cwd path with
  | .ok (.taken place _) => (.ok (), disk.eraseTree place)
  | .ok (.free _ _) => (.error .missing, disk)
  | .error refusal => (.error refusal, disk)

end ParseGoal.Disk
