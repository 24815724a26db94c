import ParseGoal.Disk

/-! Finding what a path leads to: the names are followed one by one, through links. -/
namespace ParseGoal

/-- Where a path leads. -/
inductive Spot where
  /-- Something is there. -/
  | taken (place : Location) (entry : Entry)
  /-- Nothing is there, but the directory exists; `slash` tells whether a slash follows the name. -/
  | free (place : Location) (slash : Bool)
  deriving DecidableEq

/-- The names of a path, dots included. -/
def Path.steps (path : Path) : List String :=
  ((Path.pieces path.toList).filter (· ≠ [])).map String.ofList

/-- Whether a path ends in a slash. What it leads to must then be a directory. -/
def Path.endsInSlash (path : Path) : Bool := path.toList.getLast? = some '/'

namespace Disk

/-- No more links than this are followed on one way. -/
def linkLimit : Nat := 40

/-- No name has more bytes than this. -/
def nameLimit : Nat := 255

/-- A path has fewer bytes than this. -/
def pathLimit : Nat := 4096

/--
Follows names from the directory `here`; `jump` follows what a link leads to, and the names after it.
A link at the end is followed only if `follow` or a slash after it says so.
-/
def walkNames (disk : Disk) (follow : Bool)
    (jump : Location → List String → Bool → Except Refusal Spot) (slash : Bool) (here : Location) :
    (steps : List String) → Except Refusal Spot
  | [] => .ok (.taken here .directory)
  | step :: rest =>
    if step = "." then disk.walkNames follow jump slash here rest
    else if step = ".." then disk.walkNames follow jump slash (here.drop 1) rest
    else if nameLimit < step.utf8ByteSize then .error .nameTooLong
    else
      match disk.entry? (step :: here) with
      | none => if rest = [] then .ok (.free (step :: here) slash) else .error .missing
      | some .directory => disk.walkNames follow jump slash (step :: here) rest
      | some (.file content) =>
        if rest = [] ∧ slash = false then .ok (.taken (step :: here) (.file content))
        else .error .notDirectory
      | some (.link target) =>
        if rest = [] ∧ slash = false ∧ follow = false then
          .ok (.taken (step :: here) (.link target))
        else
          jump (if Path.isAbsolute target then [] else here) (Path.steps target ++ rest)
            (slash || (rest = [] && Path.endsInSlash target))

/-- Follows names from the directory `here`; `budget` links may be followed. -/
def walk (disk : Disk) (follow : Bool) (budget : Nat) (here : Location) (steps : List String)
    (slash : Bool) : Except Refusal Spot :=
  match budget with
  | 0 => disk.walkNames follow (fun _ _ _ => .error .tooManyLinks) slash here steps
  | budget + 1 => disk.walkNames follow (disk.walk follow budget) slash here steps

/-- Where a path leads from a working directory. -/
def find (disk : Disk) (follow : Bool) (cwd : Location) (path : Path) : Except Refusal Spot :=
  if path.toList.contains '\x00' then .error .invalidName
  else if path.isEmpty then .error .missing
  else if pathLimit ≤ path.utf8ByteSize then .error .nameTooLong
  else
    disk.walk follow linkLimit (if Path.isAbsolute path then [] else cwd) (Path.steps path)
      (Path.endsInSlash path)

/-! One name at a time. -/

/-- A name that is looked up in a directory: it is not made of dots, and not too long. -/
structure IsLookedUp (step : String) : Prop where
  not_dot : step ≠ "."
  not_dots : step ≠ ".."
  short : ¬ nameLimit < step.utf8ByteSize

theorem step_cases (step : String) :
    step = "." ∨ step = ".." ∨ nameLimit < step.utf8ByteSize ∨ IsLookedUp step := by
  by_cases hdot : step = "."
  · exact .inl hdot
  by_cases hdots : step = ".."
  · exact .inr (.inl hdots)
  by_cases hlong : nameLimit < step.utf8ByteSize
  · exact .inr (.inr (.inl hlong))
  · exact .inr (.inr (.inr ⟨hdot, hdots, hlong⟩))

theorem ne_dot_of_long {step : String} (h : nameLimit < step.utf8ByteSize) : step ≠ "." ∧ step ≠ ".." := by
  constructor <;>
  · rintro rfl
    exact absurd h (by decide)

section

variable {disk : Disk} {follow slash : Bool} {jump : Location → List String → Bool → Except Refusal Spot}
  {here : Location} {step : String} {rest : List String}

theorem walkNames_dot : disk.walkNames follow jump slash here ("." :: rest) =
    disk.walkNames follow jump slash here rest :=
  if_pos rfl

theorem walkNames_dots : disk.walkNames follow jump slash here (".." :: rest) =
    disk.walkNames follow jump slash (here.drop 1) rest :=
  (if_neg (by decide)).trans (if_pos rfl)

theorem walkNames_long (h : nameLimit < step.utf8ByteSize) :
    disk.walkNames follow jump slash here (step :: rest) = .error .nameTooLong := by
  refine (if_neg (ne_dot_of_long h).1).trans ?_
  refine (if_neg (ne_dot_of_long h).2).trans ?_
  exact if_pos h

theorem walkNames_lookedUp (h : IsLookedUp step) :
    disk.walkNames follow jump slash here (step :: rest) =
      match disk.entry? (step :: here) with
      | none => if rest = [] then .ok (.free (step :: here) slash) else .error .missing
      | some .directory => disk.walkNames follow jump slash (step :: here) rest
      | some (.file content) =>
        if rest = [] ∧ slash = false then .ok (.taken (step :: here) (.file content))
        else .error .notDirectory
      | some (.link target) =>
        if rest = [] ∧ slash = false ∧ follow = false then
          .ok (.taken (step :: here) (.link target))
        else
          jump (if Path.isAbsolute target then [] else here) (Path.steps target ++ rest)
            (slash || (rest = [] && Path.endsInSlash target)) := by
  refine (if_neg h.not_dot).trans ?_
  refine (if_neg h.not_dots).trans ?_
  exact if_neg h.short

end

end Disk
end ParseGoal
