import ParseGoal.Disk

/-!
What is at each location after an entry was put or erased, and which entries a way can lead over:
directories and links, but no files.
-/
namespace ParseGoal

/-- Whether it is a directory. -/
def Entry.isDirectory : Entry → Bool
  | .directory => true
  | _ => false

/-- Whether it is a link. -/
def Entry.isLink : Entry → Bool
  | .link _ => true
  | _ => false

namespace Disk

variable (disk : Disk) (name : String) (above other : Location)

theorem lookup_filter_ne (entries : List (Location × Entry)) (place other : Location) :
    (entries.filter (·.1 ≠ place)).lookup other = if other = place then none else entries.lookup other := by
  induction entries with
  | nil => simp
  | cons head rest ih =>
    obtain ⟨at', entry⟩ := head
    by_cases hat : at' = place
    · subst hat
      rw [List.filter_cons_of_neg (by simp), ih]
      by_cases hother : other = at'
      · rw [if_pos hother, if_pos hother]
      · rw [if_neg hother, if_neg hother, List.lookup_cons, beq_false_of_ne hother]
    · rw [List.filter_cons_of_pos (by simpa using hat), List.lookup_cons, List.lookup_cons, ih]
      by_cases hother : other = at'
      · rw [hother, beq_self_eq_true]
        exact (if_neg hat).symm
      · rw [beq_false_of_ne hother]

theorem entry?_erase : Disk.entry? (disk.erase (name :: above)) other =
    if other = name :: above then none else disk.entry? other := by
  unfold entry? erase
  by_cases hroot : other = []
  · rw [hroot]
    rfl
  · rw [if_neg hroot, if_neg hroot, lookup_filter_ne]

theorem entry?_put (entry : Entry) : Disk.entry? (disk.put (name :: above) entry) other =
    if other = name :: above then some entry else disk.entry? other := by
  unfold put entry?
  by_cases hroot : other = []
  · rw [hroot]
    rfl
  · rw [if_neg hroot, if_neg hroot, List.lookup_cons, erase, lookup_filter_ne]
    by_cases hother : other = name :: above
    · rw [hother, beq_self_eq_true]
      exact (if_pos rfl).symm
    · rw [beq_false_of_ne hother, if_neg hother, if_neg hother]

variable {disk name above other}

theorem mem_names {entry : Entry} (h : disk.entry? (name :: above) = some entry) :
    name ∈ disk.names above := by
  have hmem : (name :: above, entry) ∈ disk.entries := by
    unfold entry? at h
    rw [if_neg (List.cons_ne_nil _ _)] at h
    obtain ⟨before, after, heq, -⟩ := List.lookup_eq_some_iff.1 h
    rw [heq]
    exact List.mem_append_right before List.mem_cons_self
  exact List.mem_filterMap.2 ⟨_, hmem, if_pos rfl⟩

/-- Whether everything directly in a directory is of some kind. -/
def holdsOnly (disk : Disk) (place : Location) (kind : Entry → Bool) : Bool :=
  (disk.names place).all fun name => Option.all kind <| disk.entry? (name :: place)

theorem kind_of_holdsOnly {kind : Entry → Bool} {entry : Entry}
    (h : disk.holdsOnly above kind = true) (hentry : disk.entry? (name :: above) = some entry) :
    kind entry = true := by
  have hall := List.all_eq_true.1 h name (mem_names hentry)
  rwa [hentry] at hall

/-- The directory or link at a location, if there is one. -/
def way? (disk : Disk) (place : Location) : Option Entry :=
  Option.filter (fun entry => entry.isDirectory || entry.isLink) <| disk.entry? place

theorem way?_eq_none {place : Location} (hdirectory : disk.entry? place ≠ some .directory)
    (hlink : ∀ target, disk.entry? place ≠ some (.link target)) : disk.way? place = none := by
  rw [way?]
  cases hentry : disk.entry? place with
  | none => rfl
  | some entry =>
    cases entry with
    | file content => rfl
    | directory => exact absurd hentry hdirectory
    | link target => exact absurd hentry (hlink target)

/-- Two disks have the same directories and the same links. -/
def SameWays (disk after : Disk) : Prop := ∀ place, after.way? place = disk.way? place

/-- Some directories are new on a disk, and nothing else is different. -/
def Grows (disk after : Disk) : Prop := ∀ place,
  after.entry? place = disk.entry? place ∨
    disk.entry? place = none ∧ after.entry? place = some .directory

theorem Grows.refl (disk : Disk) : disk.Grows disk := fun _ => .inl rfl

theorem Grows.trans {first second third : Disk} (h : first.Grows second) (h' : second.Grows third) :
    first.Grows third := by
  intro place
  rcases h' place with heq' | ⟨hnone', hnew'⟩
  · rcases h place with heq | ⟨hnone, hnew⟩
    · exact .inl (heq'.trans heq)
    · exact .inr ⟨hnone, heq'.trans hnew⟩
  · rcases h place with heq | ⟨hnone, hnew⟩
    · exact .inr ⟨heq.symm.trans hnone', hnew'⟩
    · rw [hnew] at hnone'
      cases hnone'

theorem grows_put_directory (h : disk.entry? (name :: above) = none) :
    disk.Grows (disk.put (name :: above) .directory) := by
  intro place
  rw [entry?_put]
  by_cases hplace : place = name :: above
  · rw [if_pos hplace]
    exact .inr ⟨hplace ▸ h, rfl⟩
  · exact .inl (if_neg hplace)

theorem way?_of_grows {after : Disk} (h : disk.Grows after) {place : Location} {entry : Entry}
    (hway : disk.way? place = some entry) : after.way? place = some entry := by
  rcases h place with heq | ⟨hnone, -⟩
  · rw [way?, heq]
    exact hway
  · rw [way?, hnone] at hway
    cases hway

theorem sameWays_put_file {content : Bytes} (h : disk.way? (name :: above) = none) :
    disk.SameWays (disk.put (name :: above) (.file content)) := by
  intro place
  by_cases hplace : place = name :: above
  · rw [hplace, h, way?, entry?_put, if_pos rfl]
    rfl
  · rw [way?, entry?_put, if_neg hplace]
    rfl

theorem sameWays_erase (h : disk.way? (name :: above) = none) :
    disk.SameWays (disk.erase (name :: above)) := by
  intro place
  by_cases hplace : place = name :: above
  · rw [hplace, h, way?, entry?_erase, if_pos rfl]
    rfl
  · rw [way?, entry?_erase, if_neg hplace]
    rfl

end Disk
end ParseGoal
