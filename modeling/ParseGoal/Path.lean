/-!
Paths as texts: names with slashes between them. Empty names and names that are one dot mean
nothing, but for a dot at the very start; two dots mean the parent, and no operation here removes them.
-/
namespace ParseGoal

/-- A path, absolute if it starts with a slash. -/
abbrev Path := String

namespace Path

/-- Whether a path starts at the root. -/
def isAbsolute (path : Path) : Bool := path.toList.head? = some '/'

/-- A path below another one; an absolute path stays as it is. -/
def join (path below : Path) : Path :=
  if isAbsolute below then below
  else if path.isEmpty ∨ path.toList.getLast? = some '/' then path ++ below
  else path ++ "/" ++ below

/-- The pieces between slashes; some may be empty. -/
def pieces : List Char → List (List Char)
  | [] => [[]]
  | c :: rest =>
    if c = '/' then [] :: pieces rest
    else
      match pieces rest with
      | piece :: more => (c :: piece) :: more
      | [] => [[c]]

/-- What a path starts with: a slash, a dot that stands for itself, or nothing. -/
def front : List Char → List Char
  | '/' :: _ => ['/']
  | ['.'] => ['.']
  | '.' :: '/' :: _ => ['.']
  | _ => []

/-- Drops slashes, and names that are one dot, from the end of a text that is given in reverse. -/
def dropEmpty : List Char → List Char
  | '/' :: rest => dropEmpty rest
  | ['.'] => []
  | '.' :: '/' :: rest => dropEmpty rest
  | text => text

/-- What follows the front, in reverse, up to its last name. -/
def reversedBody (path : Path) : List Char :=
  dropEmpty (path.toList.drop (front path.toList).length).reverse

/-- The path without its last name; the root and the empty path have none. -/
def parent? (path : Path) : Option Path :=
  let front := front path.toList
  match reversedBody path with
  | [] => if front = ['.'] then some "" else none
  | body => some (String.ofList (front ++ (dropEmpty (body.dropWhile (· ≠ '/'))).reverse))

/-- The last name, unless it is two dots. -/
def fileName? (path : Path) : Option String :=
  match ((reversedBody path).takeWhile (· ≠ '/')).reverse with
  | [] => none
  | ['.', '.'] => none
  | name => some (String.ofList name)

/-- What follows the last dot of the last name, unless the name starts with that dot. -/
def extension? (path : Path) : Option String := do
  let reversed := (← fileName? path).toList.reverse
  match reversed.dropWhile (· ≠ '.') with
  | '.' :: _ :: _ => some (String.ofList (reversed.takeWhile (· ≠ '.')).reverse)
  | _ => none

/-- The path, its parent, the parent of that, and so on, as far as `limit` allows. -/
def ancestorsWithin : (limit : Nat) → Path → List Path
  | 0, _ => []
  | limit + 1, path =>
    path :: match parent? path with
      | some above => ancestorsWithin limit above
      | none => []

/-- The path, its parent, the parent of that, and so on: each is shorter than the one before. -/
def ancestors (path : Path) : List Path := ancestorsWithin (path.length + 1) path

end Path
end ParseGoal
