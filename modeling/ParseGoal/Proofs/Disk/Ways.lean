import ParseGoal.Proofs.Disk.Directories

/-!
A path leads to the same place as long as the directories and links on its way stay: files that are
written there are found again, and new directories hide nothing.
-/
namespace ParseGoal.Disk

variable {disk after : Disk} {cwd above : Location} {path : Path} {name : String} {follow : Bool}

/-- Directories and links stay, and no link is new. -/
structure KeepsWays (disk after : Disk) : Prop where
  ways {place : Location} {entry : Entry} (h : disk.way? place = some entry) :
    after.way? place = some entry
  links {place : Location} {target : Path} (h : after.entry? place = some (.link target)) :
    disk.entry? place = some (.link target)

theorem SameWays.keepsWays (h : disk.SameWays after) : disk.KeepsWays after where
  ways hway := (h _).trans hway
  links {place target} hlink := by
    have hway : after.way? place = some (.link target) := by
      rw [way?, hlink]
      rfl
    exact entry?_of_way? ((h place).symm.trans hway)

theorem Grows.keepsWays (h : disk.Grows after) : disk.KeepsWays after where
  ways hway := way?_of_grows h hway
  links {place target} hlink := by
    rcases h place with heq | ⟨-, hnew⟩
    · exact heq ▸ hlink
    · rw [hnew] at hlink
      cases hlink

section Walk

variable (h : disk.KeepsWays after)

include h

theorem walkNames_of_keepsWays {jump jump' : Location → List String → Bool → Except Refusal Spot}
    (hjump : ∀ here steps slash spot, jump here steps slash = .ok spot → Target spot (name :: above) →
      jump' here steps slash = .ok (after.spotIn above name))
    {here : Location} {steps : List String} {slash : Bool} {spot : Spot}
    (hwalk : disk.walkNames follow jump slash here steps = .ok spot)
    (htarget : Target spot (name :: above)) :
    after.walkNames follow jump' slash here steps = .ok (after.spotIn above name) := by
  induction steps generalizing here with
  | nil =>
    cases hwalk
    rcases htarget with hfree | ⟨entry, hentry, htaken⟩
    · cases hfree
    · cases htaken
      exact absurd rfl hentry
  | cons step rest ih =>
    rcases step_cases step with rfl | rfl | hlong | hstep
    · rw [walkNames_dot] at hwalk ⊢
      exact ih hwalk
    · rw [walkNames_dots] at hwalk ⊢
      exact ih hwalk
    · rw [walkNames_long hlong] at hwalk
      cases hwalk
    -- The walk ends at this name, where nothing, a file or a link that is not followed may be.
    have hend (hslash : slash = false) (hrest : rest = []) (hplace : step :: here = name :: above)
        (hlink : ∀ target, disk.entry? (step :: here) = some (.link target) → follow = false) :
        after.walkNames follow jump' slash here (step :: rest) = .ok (after.spotIn above name) := by
      subst hslash hrest
      obtain ⟨rfl, rfl⟩ := List.cons.inj hplace
      exact walkNames_name hstep (fun target htarget => hlink target (h.links htarget)) jump'
    rw [walkNames_lookedUp hstep] at hwalk
    split at hwalk
    · next hentry =>
      split_ifs at hwalk with hrest
      cases hwalk
      rcases htarget with hfree | ⟨entry, -, htaken⟩
      · obtain ⟨hplace, hslash⟩ := Spot.free.inj hfree
        exact hend hslash hrest hplace fun target hlink => by simp [hentry] at hlink
      · cases htaken
    · next hentry =>
      have hway : after.entry? (step :: here) = some .directory :=
        entry?_of_way? (h.ways (by rw [way?, hentry]; rfl))
      rw [walkNames_lookedUp hstep, hway]
      exact ih hwalk
    · next content hentry =>
      split_ifs at hwalk with hlast
      cases hwalk
      rcases htarget with hfree | ⟨entry, -, htaken⟩
      · cases hfree
      · exact hend hlast.2 hlast.1 (Spot.taken.inj htaken).1 fun target hlink => by simp [hentry] at hlink
    · next target hentry =>
      by_cases hlast : rest = [] ∧ slash = false ∧ follow = false
      · rw [if_pos hlast] at hwalk
        cases hwalk
        rcases htarget with hfree | ⟨entry, -, htaken⟩
        · cases hfree
        · exact hend hlast.2.1 hlast.1 (Spot.taken.inj htaken).1 fun _ _ => hlast.2.2
      · rw [if_neg hlast] at hwalk
        have hway : after.entry? (step :: here) = some (.link target) :=
          entry?_of_way? (h.ways (by rw [way?, hentry]; rfl))
        rw [walkNames_lookedUp hstep, hway]
        dsimp only
        rw [if_neg hlast]
        exact hjump _ _ _ _ hwalk htarget

theorem walk_of_keepsWays {budget : Nat} {here : Location} {steps : List String} {slash : Bool} {spot : Spot}
    (hwalk : disk.walk follow budget here steps slash = .ok spot) (htarget : Target spot (name :: above)) :
    after.walk follow budget here steps slash = .ok (after.spotIn above name) := by
  induction budget generalizing here steps slash spot with
  | zero => exact walkNames_of_keepsWays h (fun _ _ _ _ hrefused => by cases hrefused) hwalk htarget
  | succ budget ih =>
    exact walkNames_of_keepsWays h (fun _ _ _ _ hjump htarget => ih hjump htarget) hwalk htarget

/-- What is found is then whatever is there. -/
theorem find_of_keepsWays {spot : Spot} (hfind : disk.find follow cwd path = .ok spot)
    (htarget : Target spot (name :: above)) :
    after.find follow cwd path = .ok (after.spotIn above name) := by
  unfold find at hfind ⊢
  split_ifs at hfind ⊢
  all_goals exact walk_of_keepsWays h hfind htarget

end Walk

/-- What is taken has a name, and is no link that should have been followed. -/
def IsTaken (disk : Disk) (follow : Bool) (place : Location) (entry : Entry) : Prop :=
  ∃ name above, place = name :: above ∧ disk.entry? place = some entry ∧ (entry.isLink = true → follow = false)

section Taken

variable {slash : Bool} {place : Location} {entry : Entry} (hentry : entry ≠ .directory)

include hentry

theorem isTaken_of_walkNames {jump : Location → List String → Bool → Except Refusal Spot}
    (hjump : ∀ here steps slash, jump here steps slash = .ok (.taken place entry) →
      disk.IsTaken follow place entry)
    {here : Location} {steps : List String}
    (h : disk.walkNames follow jump slash here steps = .ok (.taken place entry)) :
    disk.IsTaken follow place entry := by
  induction steps generalizing here with
  | nil =>
    cases h
    exact absurd rfl hentry
  | cons step rest ih =>
    rcases step_cases step with rfl | rfl | hlong | hstep
    · rw [walkNames_dot] at h
      exact ih h
    · rw [walkNames_dots] at h
      exact ih h
    · rw [walkNames_long hlong] at h
      cases h
    rw [walkNames_lookedUp hstep] at h
    split at h
    · split at h <;> cases h
    · exact ih h
    · next content hfile =>
      split at h
      · cases h
        exact ⟨step, here, rfl, hfile, fun hlink => absurd hlink Bool.false_ne_true⟩
      · cases h
    · next target hlink =>
      split at h
      · next hlast =>
        cases h
        exact ⟨step, here, rfl, hlink, fun _ => hlast.2.2⟩
      · exact hjump _ _ _ h

theorem isTaken_of_walk {budget : Nat} {here : Location} {steps : List String}
    (h : disk.walk follow budget here steps slash = .ok (.taken place entry)) :
    disk.IsTaken follow place entry := by
  induction budget generalizing here steps slash with
  | zero => exact isTaken_of_walkNames hentry (fun _ _ _ hrefused => by cases hrefused) h
  | succ budget ih => exact isTaken_of_walkNames hentry (fun _ _ _ hjump => ih hjump) h

theorem isTaken_of_find (h : disk.find follow cwd path = .ok (.taken place entry)) :
    disk.IsTaken follow place entry := by
  unfold find at h
  split_ifs at h
  all_goals exact isTaken_of_walk hentry h

end Taken

/-- Where a file can be put, no directory is and no link. -/
theorem way?_of_target {spot : Spot} {place : Location} (hfind : disk.find true cwd path = .ok spot)
    (htarget : Target spot place) : ∃ name above, place = name :: above ∧ disk.way? place = none := by
  rcases htarget with rfl | ⟨entry, hentry, rfl⟩
  · obtain ⟨name, above, rfl, hnone⟩ := isFree_of_find hfind
    exact ⟨name, above, rfl, by rw [way?, hnone]; rfl⟩
  · obtain ⟨name, above, rfl, hsome, hlink⟩ := isTaken_of_find hentry hfind
    refine ⟨name, above, rfl, ?_⟩
    cases entry with
    | file content => rw [way?, hsome]; rfl
    | directory => exact absurd rfl hentry
    | link target => exact absurd (hlink rfl) (by decide)

/-- A file that has been written is read as it was written. -/
theorem read_write {content : Bytes} (h : disk.write cwd path content = (.ok (), after)) :
    after.read cwd path = .ok content := by
  obtain ⟨spot, place, hfind, htarget, rfl⟩ := write_ok h
  obtain ⟨name, above, rfl, hway⟩ := way?_of_target hfind htarget
  have hways : disk.SameWays (disk.put (name :: above) (.file content)) := sameWays_put_file hway
  have hfound := find_of_keepsWays hways.keepsWays hfind htarget
  rw [spotIn, entry?_put, if_pos rfl] at hfound
  exact read_eq_ok.2 ⟨_, hfound⟩

/-- New directories leave every file that can be read as it is. -/
theorem read_of_grows {content : Bytes} (h : disk.Grows after) (hread : disk.read cwd path = .ok content) :
    after.read cwd path = .ok content := by
  obtain ⟨place, hfind⟩ := read_eq_ok.1 hread
  obtain ⟨name, above, rfl, hentry, -⟩ := isTaken_of_find Entry.noConfusion hfind
  have hfound := find_of_keepsWays h.keepsWays hfind (.inr ⟨_, Entry.noConfusion, rfl⟩)
  rw [spotIn, entry?_of_grows h hentry] at hfound
  exact read_eq_ok.2 ⟨_, hfound⟩

/-- A file that can be read is there. -/
theorem isFile_of_read {content : Bytes} (h : disk.read cwd path = .ok content) :
    disk.isFile cwd path = .ok true := by
  obtain ⟨place, hfind⟩ := read_eq_ok.1 h
  rw [isFile, locate_eq_ok.2 hfind]
  rfl

end ParseGoal.Disk
