import ParseGoal.Proofs.Disk.Directories

/-!
The trail of a path is the locations that tell where it leads. On disks that have the same there, the path
leads to the same. Where directories were made for a path, it leads to one.
-/
namespace ParseGoal.Disk

/--
The locations at which names are looked up one after another, from the directory `here`; `jump` has those for
what a link leads to, and the names after it.
-/
def trailNames (disk : Disk) (jump : Location → List String → List Location) (here : Location) :
    (steps : List String) → List Location
  | [] => []
  | step :: rest =>
    if step = "." then disk.trailNames jump here rest
    else if step = ".." then disk.trailNames jump (here.drop 1) rest
    else if nameLimit < step.utf8ByteSize then []
    else
      (step :: here) ::
        match disk.entry? (step :: here) with
        | some .directory => disk.trailNames jump (step :: here) rest
        | some (.link target) => jump (if Path.isAbsolute target then [] else here) (Path.steps target ++ rest)
        | _ => []

/-- The locations at which names are looked up when as many links as `budget` may be followed. -/
def trailFrom (disk : Disk) (budget : Nat) (here : Location) (steps : List String) : List Location :=
  match budget with
  | 0 => disk.trailNames (fun _ _ => []) here steps
  | budget + 1 => disk.trailNames (disk.trailFrom budget) here steps

/-- The locations that are looked up to find what a path leads to. -/
def trail (disk : Disk) (cwd : Location) (path : Path) : List Location :=
  disk.trailFrom linkLimit (if Path.isAbsolute path then [] else cwd) (Path.steps path)

section

variable {disk : Disk} {jump : Location → List String → List Location} {here : Location} {step : String}
  {rest : List String}

theorem trailNames_dot : disk.trailNames jump here ("." :: rest) = disk.trailNames jump here rest :=
  if_pos rfl

theorem trailNames_dots :
    disk.trailNames jump here (".." :: rest) = disk.trailNames jump (here.drop 1) rest :=
  (if_neg (by decide)).trans (if_pos rfl)

theorem trailNames_lookedUp (h : IsLookedUp step) :
    disk.trailNames jump here (step :: rest) =
      (step :: here) ::
        match disk.entry? (step :: here) with
        | some .directory => disk.trailNames jump (step :: here) rest
        | some (.link target) => jump (if Path.isAbsolute target then [] else here) (Path.steps target ++ rest)
        | _ => [] := by
  refine (if_neg h.not_dot).trans ?_
  refine (if_neg h.not_dots).trans ?_
  exact if_neg h.short

end

variable {disk after : Disk} {cwd : Location} {path : Path}

theorem walkNames_congr {follow : Bool} {trailJump : Location → List String → List Location}
    {jump jump' : Location → List String → Bool → Except Refusal Spot}
    (hjump : ∀ here steps slash, (∀ place ∈ trailJump here steps, after.entry? place = disk.entry? place) →
      jump' here steps slash = jump here steps slash)
    {here : Location} {steps : List String} (slash : Bool)
    (h : ∀ place ∈ disk.trailNames trailJump here steps, after.entry? place = disk.entry? place) :
    after.walkNames follow jump' slash here steps = disk.walkNames follow jump slash here steps := by
  induction steps generalizing here with
  | nil => rfl
  | cons step rest ih =>
    rcases step_cases step with rfl | rfl | hlong | hstep
    · rw [trailNames_dot] at h
      rw [walkNames_dot, walkNames_dot]
      exact ih h
    · rw [trailNames_dots] at h
      rw [walkNames_dots, walkNames_dots]
      exact ih h
    · rw [walkNames_long hlong, walkNames_long hlong]
    rw [trailNames_lookedUp hstep] at h
    rw [walkNames_lookedUp hstep, walkNames_lookedUp hstep,
      h _ List.mem_cons_self]
    replace h := fun place hplace => h place (List.mem_cons_of_mem _ hplace)
    cases hentry : disk.entry? (step :: here) with
    | none => rfl
    | some entry =>
      rw [hentry] at h
      cases entry with
      | file content => rfl
      | directory => exact ih h
      | link target =>
        dsimp only
        rw [hjump _ _ _ h]

theorem walk_congr {follow slash : Bool} {budget : Nat} {here : Location} {steps : List String}
    (h : ∀ place ∈ disk.trailFrom budget here steps, after.entry? place = disk.entry? place) :
    after.walk follow budget here steps slash = disk.walk follow budget here steps slash := by
  induction budget generalizing here steps slash with
  | zero => exact walkNames_congr (fun _ _ _ _ => rfl) slash h
  | succ budget ih =>
    have hjump (here : Location) (steps : List String) (slash : Bool)
        (hplaces : ∀ place ∈ disk.trailFrom budget here steps, after.entry? place = disk.entry? place) :
        after.walk follow budget here steps slash = disk.walk follow budget here steps slash := ih hplaces
    exact walkNames_congr hjump slash h

section

variable (h : ∀ place ∈ disk.trail cwd path, after.entry? place = disk.entry? place)

include h

/-- A path leads to the same on disks that have the same on its trail. -/
theorem find_congr (follow : Bool) : after.find follow cwd path = disk.find follow cwd path := by
  rw [find, find, walk_congr h]

theorem locate_congr : after.locate cwd path = disk.locate cwd path := by rw [locate, locate, find_congr h]

theorem read_congr : after.read cwd path = disk.read cwd path := by rw [read, read, locate_congr h]

theorem isFile_congr : after.isFile cwd path = disk.isFile cwd path := by
  rw [isFile, isFile, locate_congr h]

theorem canonical_congr : after.canonical cwd path = disk.canonical cwd path := by
  rw [canonical, canonical, locate_congr h]

end

/-! Where directories have been made. -/

theorem enterNames_of_free {follow slash free : Bool} {budget : Nat} {place : Location}
    {walkJump : Location → List String → Bool → Except Refusal Spot}
    {enterJump : Location → List String → Option (Location × Nat)}
    (hjump : ∀ here steps slash, walkJump here steps slash = .ok (.free place free) →
      ∃ left, enterJump here steps = some (place, left))
    {here : Location} {steps : List String} (hgrows : disk.Grows after)
    (hafter : after.entry? place = some .directory)
    (h : disk.walkNames follow walkJump slash here steps = .ok (.free place free)) :
    ∃ left, after.enterNames enterJump budget here steps = some (place, left) := by
  induction steps generalizing here with
  | nil => cases h
  | cons step rest ih =>
    rcases step_cases step with rfl | rfl | hlong | hstep
    · rw [walkNames_dot] at h
      rw [enterNames_dot]
      exact ih h
    · rw [walkNames_dots] at h
      rw [enterNames_dots]
      exact ih h
    · rw [walkNames_long hlong] at h
      cases h
    rw [walkNames_lookedUp hstep] at h
    rw [enterNames_lookedUp hstep]
    split at h
    · split_ifs at h with hrest
      cases h
      rw [way?, hafter, hrest]
      exact ⟨budget, rfl⟩
    · next hentry =>
      rw [way?, entry?_of_grows hgrows hentry]
      exact ih h
    · split at h <;> cases h
    · next target hentry =>
      split at h
      · cases h
      · rw [way?, entry?_of_grows hgrows hentry]
        exact hjump _ _ _ h

theorem enter_of_free {follow slash free : Bool} {budget : Nat} {here place : Location} {steps : List String}
    (hgrows : disk.Grows after) (hafter : after.entry? place = some .directory)
    (h : disk.walk follow budget here steps slash = .ok (.free place free)) :
    ∃ left, after.enter budget here steps = some (place, left) := by
  induction budget generalizing here steps slash with
  | zero => exact enterNames_of_free (fun _ _ _ hrefused => by cases hrefused) hgrows hafter h
  | succ budget ih => exact enterNames_of_free (fun _ _ _ hfree => ih hfree) hgrows hafter h

/-- A directory that was made is where its path leads. -/
theorem directory?_of_makeDirectory (h : disk.makeDirectory cwd path = (.ok (), after)) :
    ∃ place, after.directory? cwd path = some place := by
  unfold makeDirectory create at h
  split at h
  · cases h
  · next place free hfind =>
    cases h
    obtain ⟨name, above, rfl, hnone⟩ := isFree_of_find hfind
    have hmade : Disk.entry? (disk.put (name :: above) .directory) (name :: above) = some .directory := by
      rw [entry?_put, if_pos rfl]
    refine ⟨name :: above, ?_⟩
    rw [← directory?_withoutSlash]
    unfold find at hfind
    split_ifs at hfind with _ _ _ habsolute
    all_goals
      obtain ⟨left, henter⟩ := enter_of_free (grows_put_directory hnone) hmade hfind
      rw [directory?]
      simp only [habsolute, if_true, if_false, Bool.false_eq_true, henter, Option.map_some]
  · cases h

theorem directory?_of_isDirectory (h : disk.isDirectory cwd path = true) :
    ∃ place, disk.directory? cwd path = some place := by
  unfold isDirectory at h
  split at h
  · next place hlocate => exact ⟨place, directory?_of_find (locate_eq_ok.1 hlocate)⟩
  · cases h

/-- What counts as made is a directory, if what was made for its path is one. -/
theorem directory?_of_settle {answer : Except Refusal Unit} {made : Disk}
    (hmade : answer = .ok () → ∃ place, made.directory? cwd path = some place)
    (hrefused : ∀ refusal, answer = .error refusal → made = disk)
    (h : makeEach.settle cwd disk path (answer, made) = (.ok (), after)) :
    ∃ place, after.directory? cwd path = some place := by
  unfold makeEach.settle at h
  split at h
  · next hok =>
    cases hok
    cases h
    exact hmade rfl
  · next refusal _ herror =>
    cases herror
    split_ifs at h with hdirectory
    · cases h
      rw [hrefused refusal rfl]
      exact directory?_of_isDirectory hdirectory
    · cases h

/-- Where all directories of a path have been made, it leads to one. -/
theorem directory?_of_makeDirectories (h : disk.makeDirectories cwd path = (.ok (), after)) :
    ∃ place, after.directory? cwd path = some place := by
  change disk.makeEach cwd (path :: _) = _ at h
  rw [makeEach] at h
  by_cases hempty : path.isEmpty = true
  · rw [String.isEmpty_iff.1 hempty]
    exact ⟨cwd, rfl⟩
  rw [if_neg hempty] at h
  have hsettled {before : Disk}
      (hsettle : makeEach.settle cwd before path (before.makeDirectory cwd path) = (.ok (), after)) :
      ∃ place, after.directory? cwd path = some place := by
    rcases hmaking : before.makeDirectory cwd path with ⟨answer, made⟩
    rw [hmaking] at hsettle
    refine directory?_of_settle (fun hok => ?_) (fun refusal hrefusal => ?_) hsettle
    · exact directory?_of_makeDirectory (hok ▸ hmaking)
    · exact makeDirectory_error (hrefusal ▸ hmaking)
  split at h
  · next hok =>
    cases h
    exact directory?_of_makeDirectory hok
  · split at h
    · next hok => exact hsettled h
    · next habove hnever => exact absurd h (hnever _)
  · exact hsettled h

end ParseGoal.Disk
