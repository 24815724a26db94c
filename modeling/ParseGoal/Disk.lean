import ParseGoal.Path
import ParseGoal.Text.Utf8

/-! A disk: files, directories and symbolic links, each at a location. -/
namespace ParseGoal

/-- A location is the names on the way from the root, the last first. -/
abbrev Location := List String

/-- The absolute path without links of a location. -/
def Location.path : Location → Path
  | [] => "/"
  | [name] => "/" ++ name
  | name :: above => Location.path above ++ "/" ++ name

/-- What is at a location. -/
inductive Entry where
  | file (content : Bytes)
  | directory
  | link (target : Path)
  deriving DecidableEq

/-- Why an operation on a disk is refused. -/
inductive Refusal where
  | missing
  | present
  | notDirectory
  | isDirectory
  | tooManyLinks
  | nameTooLong
  | invalidName
  | invalidText
  | other (reason : String)
  deriving DecidableEq

/-- The words for a refusal. -/
def Refusal.reason : Refusal → String
  | .missing => "No such file or directory"
  | .present => "File exists"
  | .notDirectory => "Not a directory"
  | .isDirectory => "Is a directory"
  | .tooManyLinks => "Too many levels of symbolic links"
  | .nameTooLong => "File name too long"
  | .invalidName => "file name contained an unexpected NUL byte"
  | .invalidText => "stream did not contain valid UTF-8"
  | .other reason => reason

/-- The entries of a disk. The root is a directory without an entry of its own. -/
structure Disk where
  entries : List (Location × Entry)

namespace Disk

/-- A disk with nothing on it. -/
def empty : Disk := ⟨[]⟩

/-- What is at a location. -/
def entry? (disk : Disk) (place : Location) : Option Entry :=
  if place = [] then some .directory else disk.entries.lookup place

/-- The disk without the entry at a location. -/
def erase (disk : Disk) (place : Location) : Disk := ⟨disk.entries.filter (·.1 ≠ place)⟩

/-- The disk with an entry at a location, in place of what was there. -/
def put (disk : Disk) (place : Location) (entry : Entry) : Disk :=
  ⟨(place, entry) :: (disk.erase place).entries⟩

/-- The disk without a location and all below it. -/
def eraseTree (disk : Disk) (place : Location) : Disk :=
  ⟨disk.entries.filter fun (other, _) => !place.isSuffixOf other⟩

/-- The names in a directory. -/
def names (disk : Disk) (place : Location) : List String :=
  disk.entries.filterMap fun (other, _) =>
    match other with
    | name :: above => if above = place then some name else none
    | [] => none

end Disk
end ParseGoal
