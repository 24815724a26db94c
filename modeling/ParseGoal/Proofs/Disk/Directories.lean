import ParseGoal.Proofs.Disk.Operations

/-!
Making directories, one after another: the disks in between, and that nothing is made where a path
leads to a directory already.
-/
namespace ParseGoal

namespace Disk

variable {disk mid after : Disk} {cwd place : Location} {path : Path}

theorem entry?_of_grows {entry : Entry} (h : disk.Grows after) (hentry : disk.entry? place = some entry) :
    after.entry? place = some entry := by
  rcases h place with heq | ⟨hnone, -⟩
  · rw [heq, hentry]
  · rw [hnone] at hentry
    cases hentry

/-- A disk that grows back to what it was has never changed. -/
theorem entry?_eq_of_grows (h : disk.Grows after) (hback : after.Grows disk) (place : Location) :
    after.entry? place = disk.entry? place := by
  rcases h place with heq | ⟨hnone, hnew⟩
  · exact heq
  · rw [entry?_of_grows hback hnew] at hnone
    cases hnone

/-- The disks on the way while the first of some paths is made a directory. -/
def stages (disk : Disk) (cwd : Location) : List Path → List Disk
  | [] => [disk]
  | path :: above =>
    if path.isEmpty then [disk]
    else
      match disk.makeDirectory cwd path with
      | (.error .missing, disk) => disk.stages cwd above ++ [(disk.makeEach cwd (path :: above)).2]
      | (_, after) => [disk, after]

theorem makeDirectory_error {refusal : Refusal} (h : disk.makeDirectory cwd path = (.error refusal, after)) :
    after = disk := by
  unfold makeDirectory create at h
  split at h <;> cases h <;> rfl

/-- The directories around a directory are made only if they are missing. -/
theorem makeEach_cons_snd {answer : Except Refusal Unit} (hpath : path.isEmpty = false) (above : List Path)
    (hmade : disk.makeDirectory cwd path = (answer, after)) (hanswer : answer ≠ .error .missing) :
    (disk.makeEach cwd (path :: above)).2 = after := by
  rw [makeEach, hpath, if_neg Bool.false_ne_true, hmade]
  split
  · next heq =>
    cases heq
    rfl
  · next heq =>
    cases heq
    exact absurd rfl hanswer
  · exact settle_snd ..

theorem grows_makeEach_cons {above : List Path} (hpath : path.isEmpty = false)
    (hmissing : disk.makeDirectory cwd path = (.error .missing, disk)) :
    (disk.makeEach cwd above).2.Grows (disk.makeEach cwd (path :: above)).2 := by
  rw [makeEach, hpath, if_neg Bool.false_ne_true, hmissing]
  dsimp only
  split
  · next hok =>
    rw [hok, settle_snd]
    exact grows_makeDirectory
  · exact Grows.refl _

/-- Every disk on the way is between the first and the last. -/
theorem grows_of_mem_stages {paths : List Path} (h : mid ∈ disk.stages cwd paths) :
    disk.Grows mid ∧ mid.Grows (disk.makeEach cwd paths).2 := by
  induction paths with
  | nil =>
    obtain rfl := List.mem_singleton.1 h
    exact ⟨.refl mid, .refl mid⟩
  | cons path above ih =>
    have hwhole : disk.Grows (disk.makeEach cwd (path :: above)).2 := grows_makeEach _
    rw [stages] at h
    by_cases hempty : path.isEmpty = true
    · rw [if_pos hempty, List.mem_singleton] at h
      rw [h]
      exact ⟨.refl disk, hwhole⟩
    rw [if_neg hempty] at h
    replace hempty : path.isEmpty = false := by simpa using hempty
    split at h
    · next missed hmissing =>
      obtain rfl := makeDirectory_error hmissing
      rcases List.mem_append.1 h with hbefore | hlast
      · obtain ⟨hfirst, hmid⟩ := ih hbefore
        exact ⟨hfirst, hmid.trans (grows_makeEach_cons hempty hmissing)⟩
      · rw [List.mem_singleton.1 hlast]
        exact ⟨hwhole, .refl _⟩
    · next answer after hother hmade =>
      have hlast := makeEach_cons_snd hempty above hmade hother
      rcases List.mem_cons.1 h with rfl | h
      · exact ⟨.refl mid, hwhole⟩
      · rw [List.mem_singleton.1 h, ← hlast]
        exact ⟨hwhole, .refl _⟩

/-- The last of the disks on the way is the one with all directories. -/
theorem makeEach_mem_stages (disk : Disk) (cwd : Location) (paths : List Path) :
    (disk.makeEach cwd paths).2 ∈ disk.stages cwd paths := by
  cases paths with
  | nil => exact List.mem_singleton_self disk
  | cons path above =>
    rw [stages]
    by_cases hempty : path.isEmpty = true
    · rw [if_pos hempty, makeEach, if_pos hempty]
      exact List.mem_singleton_self disk
    rw [if_neg hempty]
    replace hempty : path.isEmpty = false := by simpa using hempty
    split
    · next missed hmissing =>
      obtain rfl := makeDirectory_error hmissing
      exact List.mem_append_right _ (List.mem_singleton_self _)
    · next answer after hother hmade =>
      rw [makeEach_cons_snd hempty above hmade hother]
      exact List.mem_cons_of_mem _ (List.mem_singleton_self after)

/-! Walking to a directory. -/

theorem entry?_of_way? {entry : Entry} (h : disk.way? place = some entry) : disk.entry? place = some entry :=
  (Option.filter_eq_some_iff.1 h).1

theorem walkNames_of_enterNames {follow slash : Bool} {budget : Nat}
    {enterJump : Location → List String → Option (Location × Nat)}
    {walkJump : Location → List String → Bool → Except Refusal Spot}
    (hjump : ∀ here steps slash found, enterJump here steps = some found → ∃ spot entry,
      walkJump here steps slash = .ok (.taken spot entry) ∧
        (follow = true → spot = found.1 ∧ entry = .directory))
    {here : Location} {steps : List String} {found : Location × Nat}
    (h : disk.enterNames enterJump budget here steps = some found) : ∃ spot entry,
      disk.walkNames follow walkJump slash here steps = .ok (.taken spot entry) ∧
        (follow = true → spot = found.1 ∧ entry = .directory) := by
  induction steps generalizing here with
  | nil =>
    cases h
    exact ⟨here, .directory, rfl, fun _ => ⟨rfl, rfl⟩⟩
  | cons step rest ih =>
    rcases step_cases step with rfl | rfl | hlong | hstep
    · rw [enterNames_dot] at h
      rw [walkNames_dot]
      exact ih h
    · rw [enterNames_dots] at h
      rw [walkNames_dots]
      exact ih h
    · rw [enterNames_long hlong] at h
      cases h
    rw [enterNames_lookedUp hstep] at h
    rw [walkNames_lookedUp hstep]
    split at h
    · next hway =>
      rw [entry?_of_way? hway]
      exact ih h
    · next target hway =>
      rw [entry?_of_way? hway]
      dsimp only
      by_cases hlast : rest = [] ∧ slash = false ∧ follow = false
      · rw [if_pos hlast]
        exact ⟨_, _, rfl, fun hfollow => absurd (hlast.2.2.symm.trans hfollow) Bool.false_ne_true⟩
      · rw [if_neg hlast]
        exact hjump _ _ _ _ h
    · cases h

/-- Where a path leads to a directory, something is; if links are followed to the end, it is the directory. -/
theorem walk_of_enter {budget : Nat} {here : Location} {steps : List String} {found : Location × Nat}
    (h : disk.enter budget here steps = some found) (follow slash : Bool) : ∃ spot entry,
      disk.walk follow budget here steps slash = .ok (.taken spot entry) ∧
        (follow = true → spot = found.1 ∧ entry = .directory) := by
  induction budget generalizing here steps slash found with
  | zero => exact walkNames_of_enterNames (fun _ _ _ _ hnone => by cases hnone) h
  | succ budget ih => exact walkNames_of_enterNames (fun _ _ slash _ hfound => ih hfound slash) h

theorem enterNames_of_walkNames {follow slash : Bool} {budget : Nat}
    {enterJump : Location → List String → Option (Location × Nat)}
    {walkJump : Location → List String → Bool → Except Refusal Spot}
    (hjump : ∀ here steps slash, walkJump here steps slash = .ok (.taken place .directory) →
      ∃ left, enterJump here steps = some (place, left))
    {here : Location} {steps : List String}
    (h : disk.walkNames follow walkJump slash here steps = .ok (.taken place .directory)) :
    ∃ left, disk.enterNames enterJump budget here steps = some (place, left) := by
  induction steps generalizing here with
  | nil =>
    cases h
    exact ⟨budget, rfl⟩
  | cons step rest ih =>
    rcases step_cases step with rfl | rfl | hlong | hstep
    · rw [walkNames_dot] at h
      rw [enterNames_dot]
      exact ih h
    · rw [walkNames_dots] at h
      rw [enterNames_dots]
      exact ih h
    · rw [walkNames_long hlong] at h
      cases h
    rw [walkNames_lookedUp hstep] at h
    rw [enterNames_lookedUp hstep, way?]
    split at h
    · split at h <;> cases h
    · next hentry =>
      rw [hentry]
      exact ih h
    · split at h <;> cases h
    · next target hentry =>
      rw [hentry]
      split at h
      · cases h
      · exact hjump _ _ _ h

/-- What a path leads to is a directory only if the path leads into it. -/
theorem enter_of_walk {follow slash : Bool} {budget : Nat} {here : Location} {steps : List String}
    (h : disk.walk follow budget here steps slash = .ok (.taken place .directory)) :
    ∃ left, disk.enter budget here steps = some (place, left) := by
  induction budget generalizing here steps slash with
  | zero => exact enterNames_of_walkNames (fun _ _ _ hrefused => by cases hrefused) h
  | succ budget ih => exact enterNames_of_walkNames (fun _ _ _ hfound => ih hfound) h

theorem directory?_of_find {follow : Bool} (h : disk.find follow cwd path = .ok (.taken place .directory)) :
    disk.directory? cwd path = some place := by
  unfold find at h
  split_ifs at h with _ _ _ habsolute
  all_goals
    obtain ⟨left, henter⟩ := enter_of_walk h
    rw [directory?]
    simp only [habsolute, if_true, if_false, Bool.false_eq_true, henter, Option.map_some]

section

variable (h : disk.directory? cwd path = some place)

include h

/-- A path that leads to a directory is refused only for the sake of its text. -/
theorem find_of_directory (hpath : path.isEmpty = false) (follow : Bool) :
    (∃ spot entry, disk.find follow cwd path = .ok (.taken spot entry) ∧
      (follow = true → spot = place ∧ entry = .directory)) ∨
    disk.find follow cwd path = .error .invalidName ∨ disk.find follow cwd path = .error .nameTooLong := by
  obtain ⟨found, henter, rfl⟩ := Option.map_eq_some_iff.1 h
  unfold find
  rw [hpath, if_neg Bool.false_ne_true]
  split
  · exact .inr (.inl rfl)
  split
  · exact .inr (.inr rfl)
  · exact .inl (walk_of_enter henter follow _)

theorem list_of_directory (hpath : path.isEmpty = false) : disk.list cwd path = .ok (disk.names place) ∨
    disk.list cwd path = .error .invalidName ∨ disk.list cwd path = .error .nameTooLong := by
  unfold list locate
  rcases find_of_directory h hpath true with ⟨spot, entry, hfind, hspot⟩ | hinvalid | hlong
  · obtain ⟨rfl, rfl⟩ := hspot rfl
    rw [hfind]
    exact .inl rfl
  · rw [hinvalid]
    exact .inr (.inl rfl)
  · rw [hlong]
    exact .inr (.inr rfl)

end

theorem list_of_no_directory (h : disk.directory? cwd path = none) (names : List String) :
    disk.list cwd path ≠ .ok names := by
  intro hlist
  unfold list at hlist
  cases hlocate : disk.locate cwd path with
  | error refusal =>
    rw [hlocate] at hlist
    cases hlist
  | ok found =>
    obtain ⟨spot, entry⟩ := found
    rw [hlocate] at hlist
    cases entry with
    | directory =>
      rw [directory?_of_find (locate_eq_ok.1 hlocate)] at h
      cases h
    | file content => cases hlist
    | link target => cases hlist

theorem filter_pieces_append_slashes (text : List Char) {slashes : List Char} (h : ∀ c ∈ slashes, c = '/') :
    (Path.pieces (text ++ slashes)).filter (· ≠ []) = (Path.pieces text).filter (· ≠ []) := by
  induction slashes generalizing text with
  | nil => rw [List.append_nil]
  | cons c slashes ih =>
    obtain rfl := h c List.mem_cons_self
    have hrest := ih [] fun c hc => h c (List.mem_cons_of_mem _ hc)
    rw [Path.pieces_append_slash, List.filter_append]
    rw [List.nil_append] at hrest
    rw [hrest]
    exact List.append_nil _

theorem exists_withoutSlash (path : Path) : ∃ slashes, (∀ c ∈ slashes, c = '/') ∧
    path.toList = (withoutSlash path).toList ++ slashes ∧
      ((withoutSlash path).toList = [] → slashes = []) := by
  unfold withoutSlash
  split
  · exact ⟨[], nofun, (List.append_nil _).symm, fun _ => rfl⟩
  · next hne =>
    refine ⟨(path.toList.reverse.takeWhile (· = '/')).reverse, fun c hc => ?_, ?_, fun hnil => ?_⟩
    · simpa using List.all_eq_true.1 List.all_takeWhile c (List.mem_reverse.1 hc)
    · rw [String.toList_ofList, ← List.reverse_append, List.takeWhile_append_dropWhile, List.reverse_reverse]
    · exact absurd (by simpa using hnil) hne

/-- Without the slashes at its end, a path still leads to the same directory. -/
theorem directory?_withoutSlash (disk : Disk) (cwd : Location) (path : Path) :
    disk.directory? cwd (withoutSlash path) = disk.directory? cwd path := by
  obtain ⟨slashes, hslashes, hpath, hnil⟩ := exists_withoutSlash path
  have habsolute : Path.isAbsolute (withoutSlash path) = Path.isAbsolute path := by
    rw [Path.isAbsolute, Path.isAbsolute, hpath]
    cases hfront : (withoutSlash path).toList with
    | nil => rw [hnil hfront, List.nil_append]
    | cons c rest => rfl
  have hsteps : Path.steps (withoutSlash path) = Path.steps path := by
    rw [Path.steps, Path.steps, hpath, filter_pieces_append_slashes _ hslashes]
  rw [directory?, directory?, habsolute, hsteps]

theorem isEmpty_withoutSlash (h : path.isEmpty = false) : (withoutSlash path).isEmpty = false := by
  obtain ⟨slashes, -, hpath, hnil⟩ := exists_withoutSlash path
  rw [Bool.eq_false_iff] at h ⊢
  intro hempty
  have hfront : (withoutSlash path).toList = [] := by simpa using hempty
  rw [hfront, hnil hfront] at hpath
  exact h (by simpa using hpath)

/-- Nothing is made where a directory is. -/
theorem makeDirectories_of_directory (h : disk.directory? cwd path = some place) :
    (disk.makeDirectories cwd path).2 = disk := by
  change (disk.makeEach cwd (path :: _)).2 = disk
  by_cases hempty : path.isEmpty = true
  · rw [makeEach, if_pos hempty]
  replace hempty : path.isEmpty = false := by simpa using hempty
  have hbelow : disk.directory? cwd (withoutSlash path) = some place := by rw [directory?_withoutSlash, h]
  have hrefused : ∃ refusal, disk.makeDirectory cwd path = (.error refusal, disk) ∧ refusal ≠ .missing := by
    unfold makeDirectory create
    rcases find_of_directory hbelow (isEmpty_withoutSlash hempty) false with
      ⟨spot, entry, hfind, -⟩ | hinvalid | hlong
    · rw [hfind]
      exact ⟨.present, rfl, by decide⟩
    · rw [hinvalid]
      exact ⟨.invalidName, rfl, by decide⟩
    · rw [hlong]
      exact ⟨.nameTooLong, rfl, by decide⟩
  obtain ⟨refusal, hmade, hrefusal⟩ := hrefused
  exact makeEach_cons_snd hempty _ hmade fun heq => hrefusal (Except.error.inj heq)

end Disk
end ParseGoal
