import ParseGoal.Proofs.Disk.Trail

/-!
Where regular files are changed, and all else on the trail of a path stays: a file that was found is found
with what it holds then, and where there was no file, there is none.
-/
namespace ParseGoal.Disk

variable {disk after : Disk} {cwd : Location} {path : Path}

/-- What is at a location stays, unless it is a regular file. -/
def StaysAt (disk after : Disk) (place : Location) : Prop :=
  (∀ content, disk.entry? place ≠ some (.file content)) → after.entry? place = disk.entry? place

theorem StaysAt.refl (disk : Disk) (place : Location) : disk.StaysAt disk place := fun _ => rfl

/-- Whatever takes the place of a regular file, all else stays. -/
theorem StaysAt.put {place above : Location} {name : String} {content : Bytes} (h : disk.StaysAt after place)
    (hfile : disk.entry? (name :: above) = some (.file content)) (entry : Entry) :
    disk.StaysAt (after.put (name :: above) entry) place := by
  intro hplace
  have hother : place ≠ name :: above := fun heq => hplace content (heq ▸ hfile)
  rw [entry?_put, if_neg hother]
  exact h hplace

/-- All that is on a trail stays, except for regular files. -/
def KeepsTrail (disk after : Disk) (cwd : Location) (path : Path) : Prop :=
  ∀ place ∈ disk.trail cwd path, disk.StaysAt after place

/--
What is found is found again: a file with what it holds then, and anything else as it was. Nothing is said
of a way that needs a directory where a file is.
-/
def FoundAgain (after : Disk) : (found again : Except Refusal Spot) → Prop
  | .error .notDirectory, _ => True
  | .ok (.taken place (.file _)), again =>
    ∀ content, after.entry? place = some (.file content) → again = .ok (.taken place (.file content))
  | found, again => again = found

theorem foundAgain_error (refusal : Refusal) : FoundAgain after (.error refusal) (.error refusal) := by
  cases refusal <;> trivial

theorem walkNames_foundAgain {follow : Bool} {trailJump : Location → List String → List Location}
    {jump jump' : Location → List String → Bool → Except Refusal Spot}
    (hjump : ∀ here steps slash, (∀ place ∈ trailJump here steps, disk.StaysAt after place) →
      FoundAgain after (jump here steps slash) (jump' here steps slash))
    {here : Location} {steps : List String} (slash : Bool)
    (h : ∀ place ∈ disk.trailNames trailJump here steps, disk.StaysAt after place) :
    FoundAgain after (disk.walkNames follow jump slash here steps)
      (after.walkNames follow jump' slash here steps) := by
  induction steps generalizing here with
  | nil => exact rfl
  | cons step rest ih =>
    rcases step_cases step with rfl | rfl | hlong | hstep
    · rw [trailNames_dot] at h
      rw [walkNames_dot, walkNames_dot]
      exact ih h
    · rw [trailNames_dots] at h
      rw [walkNames_dots, walkNames_dots]
      exact ih h
    · rw [walkNames_long hlong, walkNames_long hlong]
      exact foundAgain_error _
    rw [trailNames_lookedUp hstep] at h
    rw [walkNames_lookedUp hstep, walkNames_lookedUp hstep]
    have hhere := h _ List.mem_cons_self
    replace h := fun place hplace => h place (List.mem_cons_of_mem _ hplace)
    cases hentry : disk.entry? (step :: here) with
    | none =>
      rw [hhere (by simp [hentry]), hentry]
      by_cases hrest : rest = []
      · simp only [if_pos hrest]
        exact rfl
      · simp only [if_neg hrest]
        exact foundAgain_error _
    | some entry =>
      rw [hentry] at h
      cases entry with
      | file content =>
        dsimp only
        by_cases hlast : rest = [] ∧ slash = false
        · rw [if_pos hlast]
          intro content' hafter
          rw [hafter]
          exact if_pos hlast
        · rw [if_neg hlast]
          trivial
      | directory =>
        rw [hhere (by simp [hentry]), hentry]
        exact ih h
      | link target =>
        rw [hhere (by simp [hentry]), hentry]
        dsimp only at h ⊢
        by_cases hlast : rest = [] ∧ slash = false ∧ follow = false
        · rw [if_pos hlast, if_pos hlast]
          exact rfl
        · rw [if_neg hlast, if_neg hlast]
          exact hjump _ _ _ h

theorem walk_foundAgain {follow : Bool} {budget : Nat} {here : Location} {steps : List String} (slash : Bool)
    (h : ∀ place ∈ disk.trailFrom budget here steps, disk.StaysAt after place) :
    FoundAgain after (disk.walk follow budget here steps slash) (after.walk follow budget here steps slash) := by
  induction budget generalizing here steps slash with
  | zero => exact walkNames_foundAgain (fun _ _ _ _ => foundAgain_error _) slash h
  | succ budget ih =>
    have hjump (here : Location) (steps : List String) (slash : Bool)
        (hplaces : ∀ place ∈ disk.trailFrom budget here steps, disk.StaysAt after place) :
        FoundAgain after (disk.walk follow budget here steps slash)
          (after.walk follow budget here steps slash) := ih slash hplaces
    exact walkNames_foundAgain hjump slash h

theorem find_foundAgain (h : disk.KeepsTrail after cwd path) (follow : Bool) :
    FoundAgain after (disk.find follow cwd path) (after.find follow cwd path) := by
  rw [find, find]
  by_cases hname : path.toList.contains '\x00' = true
  · rw [if_pos hname, if_pos hname]
    exact foundAgain_error _
  by_cases hempty : path.isEmpty = true
  · rw [if_neg hname, if_neg hname, if_pos hempty, if_pos hempty]
    exact foundAgain_error _
  by_cases hlong : pathLimit ≤ path.utf8ByteSize
  · rw [if_neg hname, if_neg hname, if_neg hempty, if_neg hempty, if_pos hlong, if_pos hlong]
    exact foundAgain_error _
  rw [if_neg hname, if_neg hname, if_neg hempty, if_neg hempty, if_neg hlong, if_neg hlong]
  exact walk_foundAgain (Path.endsInSlash path) h

/-- A file is found again, with what it holds then. -/
theorem locate_of_keepsTrail (h : disk.KeepsTrail after cwd path) {place : Location} {content content' : Bytes}
    (hfile : disk.locate cwd path = .ok (place, .file content))
    (hafter : after.entry? place = some (.file content')) :
    after.locate cwd path = .ok (place, .file content') := by
  have hfound := find_foundAgain h true
  rw [locate_eq_ok.1 hfile] at hfound
  exact locate_eq_ok.2 (hfound content' hafter)

/-- Where there was no file, there still is none. -/
theorem isFile_of_keepsTrail (h : disk.KeepsTrail after cwd path)
    (hnone : disk.isFile cwd path = .ok false ∨ disk.isFile cwd path = .error .missing) :
    after.isFile cwd path = disk.isFile cwd path := by
  have hfound := find_foundAgain h true
  rw [isFile, isFile, locate, locate]
  rw [isFile, locate] at hnone
  cases hfind : disk.find true cwd path with
  | error refusal =>
    rw [hfind] at hfound hnone
    obtain rfl : refusal = .missing := by
      rcases hnone with hnone | hnone
      · cases hnone
      · exact Except.error.inj hnone
    rw [hfound]
  | ok spot =>
    rw [hfind] at hfound hnone
    cases spot with
    | free place slash => rw [hfound]
    | taken place entry =>
      cases entry with
      | file content => rcases hnone with hnone | hnone <;> cases hnone
      | directory => rw [hfound]
      | link target => rw [hfound]

/-! An absolute path leads to the same from every working directory. -/

theorem locate_of_isAbsolute (h : Path.isAbsolute path = true) (cwd cwd' : Location) :
    disk.locate cwd' path = disk.locate cwd path := by
  rw [locate, locate, find, find, h]
  rfl

theorem isFile_of_isAbsolute (h : Path.isAbsolute path = true) (cwd cwd' : Location) :
    disk.isFile cwd' path = disk.isFile cwd path := by
  rw [isFile, isFile, locate_of_isAbsolute h cwd cwd']

end ParseGoal.Disk
