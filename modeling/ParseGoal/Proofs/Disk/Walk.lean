import Mathlib.Tactic.SplitIfs
import ParseGoal.Proofs.Disk.Entry
import ParseGoal.Proofs.Path

/-!
Entering a directory: the way to a name in a directory is the way to the directory and then one step.
Only directories and links matter on the way, so it is the same on disks that have the same of both.
-/
namespace ParseGoal.Disk

/--
Follows names into directories only; `jump` follows what a link leads to, and the names after it. The
number is that of the links that may still be followed.
-/
def enterNames (disk : Disk) (jump : Location → List String → Option (Location × Nat))
    (budget : Nat) (here : Location) : (steps : List String) → Option (Location × Nat)
  | [] => some (here, budget)
  | step :: rest =>
    if step = "." then disk.enterNames jump budget here rest
    else if step = ".." then disk.enterNames jump budget (here.drop 1) rest
    else if nameLimit < step.utf8ByteSize then none
    else
      match disk.way? (step :: here) with
      | some .directory => disk.enterNames jump budget (step :: here) rest
      | some (.link target) =>
        jump (if Path.isAbsolute target then [] else here) (Path.steps target ++ rest)
      | _ => none

/-- The directory that some names lead to from the directory `here`. -/
def enter (disk : Disk) (budget : Nat) (here : Location) (steps : List String) :
    Option (Location × Nat) :=
  match budget with
  | 0 => disk.enterNames (fun _ _ => none) 0 here steps
  | budget + 1 => disk.enterNames (disk.enter budget) (budget + 1) here steps

/-- The directory that a path leads to from a working directory. -/
def directory? (disk : Disk) (cwd : Location) (path : Path) : Option Location :=
  (disk.enter linkLimit (if Path.isAbsolute path then [] else cwd) (Path.steps path)).map Prod.fst

section

variable {disk : Disk} {jump : Location → List String → Option (Location × Nat)} {budget : Nat}
  {here : Location} {step : String} {rest : List String}

theorem enterNames_dot : disk.enterNames jump budget here ("." :: rest) =
    disk.enterNames jump budget here rest :=
  if_pos rfl

theorem enterNames_dots : disk.enterNames jump budget here (".." :: rest) =
    disk.enterNames jump budget (here.drop 1) rest :=
  (if_neg (by decide)).trans (if_pos rfl)

theorem enterNames_long (h : nameLimit < step.utf8ByteSize) :
    disk.enterNames jump budget here (step :: rest) = none := by
  refine (if_neg (ne_dot_of_long h).1).trans ?_
  refine (if_neg (ne_dot_of_long h).2).trans ?_
  exact if_pos h

theorem enterNames_lookedUp (h : IsLookedUp step) :
    disk.enterNames jump budget here (step :: rest) =
      match disk.way? (step :: here) with
      | some .directory => disk.enterNames jump budget (step :: here) rest
      | some (.link target) =>
        jump (if Path.isAbsolute target then [] else here) (Path.steps target ++ rest)
      | _ => none := by
  refine (if_neg h.not_dot).trans ?_
  refine (if_neg h.not_dots).trans ?_
  exact if_neg h.short

end

variable {disk after : Disk}

theorem enterNames_congr (h : disk.SameWays after)
    {jump jump' : Location → List String → Option (Location × Nat)} (hjump : jump' = jump)
    (budget : Nat) (here : Location) (steps : List String) :
    after.enterNames jump' budget here steps = disk.enterNames jump budget here steps := by
  subst hjump
  induction steps generalizing here with
  | nil => rfl
  | cons step rest ih =>
    rw [enterNames, enterNames, ih, ih, ih, h]

theorem enter_congr (h : disk.SameWays after) (budget : Nat) (here : Location) (steps : List String) :
    after.enter budget here steps = disk.enter budget here steps := by
  induction budget generalizing here steps with
  | zero => exact enterNames_congr h rfl 0 here steps
  | succ budget ih =>
    exact enterNames_congr h (funext fun here => funext fun steps => ih here steps) _ here steps

theorem directory?_congr (h : disk.SameWays after) (cwd : Location) (path : Path) :
    after.directory? cwd path = disk.directory? cwd path := by
  rw [directory?, directory?, enter_congr h]

theorem enterNames_mono (h : disk.Grows after)
    {jump jump' : Location → List String → Option (Location × Nat)}
    (hjump : ∀ here steps found, jump here steps = some found → jump' here steps = some found)
    {budget : Nat} {here : Location} {steps : List String} {found : Location × Nat}
    (henter : disk.enterNames jump budget here steps = some found) :
    after.enterNames jump' budget here steps = some found := by
  induction steps generalizing here with
  | nil => exact henter
  | cons step rest ih =>
    rcases step_cases step with rfl | rfl | hlong | hstep
    · rw [enterNames_dot] at henter ⊢
      exact ih henter
    · rw [enterNames_dots] at henter ⊢
      exact ih henter
    · rw [enterNames_long hlong] at henter
      cases henter
    · rw [enterNames_lookedUp hstep] at henter ⊢
      split at henter
      · next hway =>
        rw [way?_of_grows h hway]
        exact ih henter
      · next hway =>
        rw [way?_of_grows h hway]
        exact hjump _ _ _ henter
      · cases henter

theorem enter_mono (h : disk.Grows after) {budget : Nat} {here : Location} {steps : List String}
    {found : Location × Nat} (henter : disk.enter budget here steps = some found) :
    after.enter budget here steps = some found := by
  induction budget generalizing here steps found with
  | zero => exact enterNames_mono h (fun _ _ _ hnone => by cases hnone) henter
  | succ budget ih => exact enterNames_mono h (fun _ _ _ hfound => ih hfound) henter

/-- A path that leads to a directory still does when directories are added. -/
theorem directory?_of_grows (h : disk.Grows after) {cwd place : Location} {path : Path}
    (hplace : disk.directory? cwd path = some place) : after.directory? cwd path = some place := by
  obtain ⟨found, henter, rfl⟩ := Option.map_eq_some_iff.1 hplace
  exact Option.map_eq_some_iff.2 ⟨found, enter_mono h henter, rfl⟩

/-- One step from the directory that was entered, or a refusal if none was. -/
def StepsFrom (disk : Disk) (follow : Bool) (name : String) (slash : Bool)
    (found : Option (Location × Nat)) (result : Except Refusal Spot) : Prop :=
  match found with
  | some (place, left) => result = disk.walk follow left place [name] slash
  | none => ∃ refusal, result = .error refusal

theorem stepsFrom_walkNames {follow slash : Bool} {name : String} {budget : Nat}
    {enterJump : Location → List String → Option (Location × Nat)}
    {walkJump : Location → List String → Bool → Except Refusal Spot}
    (hlast : ∀ here, disk.walk follow budget here [name] slash =
      disk.walkNames follow walkJump slash here [name])
    (hjump : ∀ here steps, disk.StepsFrom follow name slash (enterJump here steps)
      (walkJump here (steps ++ [name]) slash)) (here : Location) (steps : List String) :
    disk.StepsFrom follow name slash (disk.enterNames enterJump budget here steps)
      (disk.walkNames follow walkJump slash here (steps ++ [name])) := by
  induction steps generalizing here with
  | nil => exact (hlast here).symm
  | cons step rest ih =>
    have hmore : rest ++ [name] ≠ [] := List.append_ne_nil_of_right_ne_nil _ (List.cons_ne_nil _ _)
    rw [List.cons_append]
    rcases step_cases step with rfl | rfl | hlong | hstep
    · rw [walkNames_dot, enterNames_dot]
      exact ih here
    · rw [walkNames_dots, enterNames_dots]
      exact ih (here.drop 1)
    · rw [walkNames_long hlong, enterNames_long hlong]
      exact ⟨_, rfl⟩
    rw [walkNames_lookedUp hstep, enterNames_lookedUp hstep, way?]
    cases hentry : disk.entry? (step :: here) with
    | none =>
      refine ⟨.missing, ?_⟩
      exact if_neg hmore
    | some entry =>
      cases entry with
      | file content =>
        refine ⟨.notDirectory, ?_⟩
        exact if_neg fun h => hmore h.1
      | directory => exact ih (step :: here)
      | link target =>
        have hfollowed : ¬(rest ++ [name] = [] ∧ slash = false ∧ follow = false) :=
          fun h => hmore h.1
        dsimp only
        rw [if_neg hfollowed, decide_eq_false hmore, Bool.false_and, Bool.or_false,
          ← List.append_assoc]
        exact hjump _ _

variable (disk) in
theorem stepsFrom_walk (follow slash : Bool) (name : String) (budget : Nat) (here : Location)
    (steps : List String) : disk.StepsFrom follow name slash (disk.enter budget here steps)
      (disk.walk follow budget here (steps ++ [name]) slash) := by
  induction budget generalizing here steps with
  | zero =>
    have hjump (here : Location) (steps : List String) : disk.StepsFrom follow name slash none
        (.error .tooManyLinks) := ⟨_, rfl⟩
    exact stepsFrom_walkNames (fun _ => rfl) hjump here steps
  | succ budget ih => exact stepsFrom_walkNames (fun _ => rfl) ih here steps

/-- What a name in a directory leads to. -/
def spotIn (disk : Disk) (place : Location) (name : String) : Spot :=
  match disk.entry? (name :: place) with
  | none => .free (name :: place) false
  | some entry => .taken (name :: place) entry

/-- The last name of a path is looked up where the walk has led. -/
theorem walkNames_name {follow : Bool} {above : Location} {name : String} (hname : IsLookedUp name)
    (hlink : ∀ target, disk.entry? (name :: above) = some (.link target) → follow = false)
    (jump : Location → List String → Bool → Except Refusal Spot) :
    disk.walkNames follow jump false above [name] = .ok (disk.spotIn above name) := by
  rw [walkNames_lookedUp hname, spotIn]
  cases hentry : disk.entry? (name :: above) with
  | none => rfl
  | some entry =>
    cases entry with
    | file content => rfl
    | directory => rfl
    | link target => rw [hlink target hentry]; rfl

/-- One step to a name that is not that of a link. -/
theorem walk_name {name : String} (hname : Path.IsName name) {place : Location}
    (hlink : ∀ target, disk.entry? (name :: place) ≠ some (.link target)) (follow : Bool)
    (budget : Nat) : disk.walk follow budget place [name] false =
      if nameLimit < name.utf8ByteSize then .error .nameTooLong else .ok (disk.spotIn place name) := by
  have hnames (jump : Location → List String → Bool → Except Refusal Spot) :
      disk.walkNames follow jump false place [name] = if nameLimit < name.utf8ByteSize then
        .error .nameTooLong else .ok (disk.spotIn place name) := by
    by_cases hlong : nameLimit < name.utf8ByteSize
    · rw [if_pos hlong, walkNames_long hlong]
    · rw [if_neg hlong]
      exact walkNames_name ⟨hname.not_dot, hname.not_dots, hlong⟩
        (fun target htarget => absurd htarget (hlink target)) jump
  cases budget with
  | zero => exact hnames _
  | succ budget => exact hnames _

/-- A path that can be asked for at all, and a name that can. -/
structure Askable (path : Path) (name : String) : Prop where
  text : path.toList.contains '\x00' = false
  short : path.utf8ByteSize < pathLimit
  name_short : name.utf8ByteSize ≤ nameLimit

/-- The directory that a path leads to has no link of some name. -/
def HasNoLink (disk : Disk) (cwd : Location) (path : Path) (name : String) : Prop :=
  ∀ place, disk.directory? cwd path = some place →
    ∀ target, disk.entry? (name :: place) ≠ some (.link target)

theorem HasNoLink.congr {cwd : Location} {path : Path} {name : String} (hways : disk.SameWays after)
    (h : disk.HasNoLink cwd path name) : after.HasNoLink cwd path name := by
  intro place hplace target hentry
  rw [directory?_congr hways] at hplace
  have hway : disk.way? (name :: place) = some (.link target) := by
    rw [← hways, way?, hentry]
    rfl
  exact h place hplace target (Option.filter_eq_some_iff.1 hway).1

/-- Where a name below a path leads, if the name is not that of a link. -/
theorem find_join_iff {cwd : Location} {path : Path} {name : String} (hname : Path.IsName name)
    (hlink : disk.HasNoLink cwd path name) (follow : Bool) {spot : Spot} :
    disk.find follow cwd (path.join name) = .ok spot ↔ Askable (path.join name) name ∧
      ∃ place, disk.directory? cwd path = some place ∧ spot = disk.spotIn place name := by
  have hnonempty : (path.join name).isEmpty = false := by
    obtain ⟨above, heq, -⟩ := Path.toList_join path hname
    have hne := List.append_ne_nil_of_right_ne_nil above hname.nonempty
    rw [← heq] at hne
    simpa using hne
  have hsteps := stepsFrom_walk disk follow false name linkLimit
    (if Path.isAbsolute path then [] else cwd) (Path.steps path)
  unfold find directory?
  rw [hnonempty, Path.isAbsolute_join path hname, Path.steps_join path hname,
    Path.endsInSlash_join path hname]
  by_cases htext : (path.join name).toList.contains '\x00' = true
  · rw [if_pos htext]
    refine ⟨nofun, fun h => ?_⟩
    rw [h.1.text] at htext
    cases htext
  by_cases hshort : pathLimit ≤ (path.join name).utf8ByteSize
  · rw [if_neg htext, if_neg Bool.false_ne_true, if_pos hshort]
    exact ⟨nofun, fun h => absurd h.1.short (Nat.not_lt.2 hshort)⟩
  rw [if_neg htext, if_neg Bool.false_ne_true, if_neg hshort]
  cases henter : disk.enter linkLimit (if Path.isAbsolute path then [] else cwd)
      (Path.steps path) with
  | none =>
    rw [henter] at hsteps
    obtain ⟨refusal, hrefusal⟩ := hsteps
    rw [hrefusal]
    exact ⟨nofun, fun ⟨_, _, hnone, _⟩ => nomatch hnone⟩
  | some found =>
    obtain ⟨place, left⟩ := found
    rw [henter] at hsteps
    have hplain : ∀ target, disk.entry? (name :: place) ≠ some (.link target) := by
      refine hlink place ?_
      rw [directory?, henter]
      rfl
    have hwalk : disk.walk follow linkLimit (if Path.isAbsolute path then [] else cwd)
        (Path.steps path ++ [name]) false = disk.walk follow left place [name] false := hsteps
    rw [hwalk, walk_name hname hplain]
    by_cases hlong : nameLimit < name.utf8ByteSize
    · rw [if_pos hlong]
      exact ⟨nofun, fun h => absurd h.1.name_short (Nat.not_le.2 hlong)⟩
    · rw [if_neg hlong]
      constructor
      · rintro ⟨rfl⟩
        exact ⟨⟨by simpa using htext, Nat.not_le.1 hshort, Nat.not_lt.1 hlong⟩, place, rfl, rfl⟩
      · rintro ⟨-, _, ⟨rfl⟩, rfl⟩
        rfl

end ParseGoal.Disk
