import ParseGoal.Disk.Operations
import ParseGoal.Proofs.Disk.Walk

/-!
What the operations do with a name in a directory, and that making directories changes nothing that
is there already.
-/
namespace ParseGoal.Disk

variable {disk after : Disk} {cwd : Location} {path : Path} {name : String}

/-- A place where nothing is has a name, and nothing is there. -/
def IsFree (disk : Disk) (place : Location) : Prop :=
  ∃ name above, place = name :: above ∧ disk.entry? place = none

theorem isFree_of_walkNames {follow slash free : Bool} {place : Location}
    {jump : Location → List String → Bool → Except Refusal Spot}
    (hjump : ∀ here steps slash, jump here steps slash = .ok (.free place free) → disk.IsFree place)
    {here : Location} {steps : List String}
    (h : disk.walkNames follow jump slash here steps = .ok (.free place free)) :
    disk.IsFree place := by
  induction steps generalizing here with
  | nil => cases h
  | cons step rest ih =>
    rcases step_cases step with rfl | rfl | hlong | hstep
    · rw [walkNames_dot] at h
      exact ih h
    · rw [walkNames_dots] at h
      exact ih h
    · rw [walkNames_long hlong] at h
      cases h
    rw [walkNames_lookedUp hstep] at h
    split at h
    · next hentry =>
      split at h
      · cases h
        exact ⟨step, here, rfl, hentry⟩
      · cases h
    · exact ih h
    · split at h <;> cases h
    · split at h
      · cases h
      · exact hjump _ _ _ h

theorem isFree_of_walk {follow slash free : Bool} {budget : Nat} {here place : Location}
    {steps : List String} (h : disk.walk follow budget here steps slash = .ok (.free place free)) :
    disk.IsFree place := by
  induction budget generalizing here steps slash with
  | zero =>
    have hjump (_ : Location) (_ : List String) (_ : Bool)
        (hfree : (.error .tooManyLinks : Except Refusal Spot) = .ok (.free place free)) :
        disk.IsFree place := by
      cases hfree
    exact isFree_of_walkNames hjump h
  | succ budget ih => exact isFree_of_walkNames (fun _ _ _ hjump => ih hjump) h

theorem isFree_of_find {follow free : Bool} {place : Location}
    (h : disk.find follow cwd path = .ok (.free place free)) : disk.IsFree place := by
  unfold find at h
  split_ifs at h
  all_goals exact isFree_of_walk h

theorem grows_makeDirectory : disk.Grows (disk.makeDirectory cwd path).2 := by
  unfold makeDirectory create
  split
  · exact Grows.refl disk
  · next place free hfind =>
    obtain ⟨name, above, rfl, hnone⟩ := isFree_of_find hfind
    exact grows_put_directory hnone
  · exact Grows.refl disk

theorem settle_snd (disk : Disk) (cwd : Location) (path : Path) (outcome : Outcome Unit) :
    (makeEach.settle cwd disk path outcome).2 = outcome.2 := by
  unfold makeEach.settle
  split
  · rfl
  · split <;> rfl

/-- What every directory that is made keeps is kept where many are made. -/
theorem makeEach_induction {P : Disk → Prop}
    (hmake : ∀ disk path, P disk → P (disk.makeDirectory cwd path).2) (h : P disk) (paths : List Path) :
    P (disk.makeEach cwd paths).2 := by
  induction paths generalizing disk with
  | nil => exact h
  | cons path above ih =>
    have hmade : P (disk.makeDirectory cwd path).2 := hmake disk path h
    rw [makeEach]
    split
    · exact h
    split
    · next hok =>
      rw [hok] at hmade
      exact hmade
    · next hmissing =>
      rw [hmissing] at hmade
      split
      · next hok =>
        have habove := ih hmade
        rw [hok] at habove
        rw [settle_snd]
        exact hmake _ path habove
      · exact ih hmade
    · rw [settle_snd]
      exact hmade

theorem grows_makeEach (paths : List Path) : disk.Grows (disk.makeEach cwd paths).2 :=
  makeEach_induction (fun _ _ hgrows => hgrows.trans grows_makeDirectory) (.refl disk) paths

theorem grows_makeDirectories : disk.Grows (disk.makeDirectories cwd path).2 := grows_makeEach _

theorem spotIn_eq_taken {place other : Location} {entry : Entry} :
    disk.spotIn place name = .taken other entry ↔
      other = name :: place ∧ disk.entry? (name :: place) = some entry := by
  unfold spotIn
  cases disk.entry? (name :: place) with
  | none => exact ⟨nofun, fun h => nomatch h.2⟩
  | some found =>
    constructor
    · intro h
      cases h
      exact ⟨rfl, rfl⟩
    · rintro ⟨rfl, ⟨rfl⟩⟩
      rfl

theorem spotIn_eq_free {place other : Location} {slash : Bool}
    (h : disk.spotIn place name = .free other slash) :
    other = name :: place ∧ slash = false ∧ disk.entry? (name :: place) = none := by
  unfold spotIn at h
  split at h
  · next hentry =>
    cases h
    exact ⟨rfl, rfl, hentry⟩
  · cases h

theorem locate_eq_ok {place : Location} {entry : Entry} :
    disk.locate cwd path = .ok (place, entry) ↔ disk.find true cwd path = .ok (.taken place entry) := by
  unfold locate
  cases disk.find true cwd path with
  | error refusal => exact ⟨nofun, nofun⟩
  | ok spot =>
    cases spot with
    | free other slash => exact ⟨nofun, nofun⟩
    | taken other found =>
      constructor
      · intro h
        cases h
        rfl
      · intro h
        cases h
        rfl

theorem read_eq_ok {content : Bytes} : disk.read cwd path = .ok content ↔
    ∃ place, disk.find true cwd path = .ok (.taken place (.file content)) := by
  simp only [← locate_eq_ok]
  unfold read
  cases disk.locate cwd path with
  | error refusal => exact ⟨nofun, nofun⟩
  | ok found =>
    obtain ⟨place, entry⟩ := found
    cases entry with
    | file bytes =>
      constructor
      · intro h
        cases h
        exact ⟨place, rfl⟩
      · rintro ⟨_, ⟨⟩⟩
        rfl
    | directory => exact ⟨nofun, nofun⟩
    | link target => exact ⟨nofun, nofun⟩

/-- Where a file or link can be put: at a file or link, or where nothing is and no slash follows. -/
def Target (spot : Spot) (place : Location) : Prop :=
  spot = .free place false ∨ ∃ entry, entry ≠ .directory ∧ spot = .taken place entry

theorem write_ok {content : Bytes} (h : disk.write cwd path content = (.ok (), after)) :
    ∃ spot place, disk.find true cwd path = .ok spot ∧ Target spot place ∧
      after = disk.put place (.file content) := by
  unfold write at h
  cases hfind : disk.find true cwd path with
  | error refusal =>
    rw [hfind] at h
    cases h
  | ok spot =>
    rw [hfind] at h
    cases spot with
    | free place slash =>
      cases slash with
      | true => cases h
      | false =>
        cases h
        exact ⟨_, place, rfl, .inl rfl, rfl⟩
    | taken place entry =>
      cases entry with
      | file bytes =>
        cases h
        exact ⟨_, place, rfl, .inr ⟨_, Entry.noConfusion, rfl⟩, rfl⟩
      | directory => cases h
      | link target => cases h

theorem remove_ok (h : disk.remove cwd path = (.ok (), after)) :
    ∃ place entry, disk.find false cwd path = .ok (.taken place entry) ∧ entry ≠ .directory ∧
      after = disk.erase place := by
  unfold remove at h
  cases hfind : disk.find false cwd path with
  | error refusal =>
    rw [hfind] at h
    cases h
  | ok spot =>
    rw [hfind] at h
    cases spot with
    | free place slash => cases h
    | taken place entry =>
      cases entry with
      | directory => cases h
      | file content =>
        cases h
        exact ⟨place, _, rfl, Entry.noConfusion, rfl⟩
      | link target =>
        cases h
        exact ⟨place, _, rfl, Entry.noConfusion, rfl⟩

theorem rename_ok {source target : Path} (h : disk.rename cwd source target = (.ok (), after)) :
    ∃ place entry spot other, disk.find false cwd source = .ok (.taken place entry) ∧
      entry ≠ .directory ∧ disk.find false cwd target = .ok spot ∧ Target spot other ∧
      after = (disk.erase place).put other entry := by
  unfold rename at h
  cases hsource : disk.find false cwd source with
  | error refusal =>
    rw [hsource] at h
    cases h
  | ok found =>
    rw [hsource] at h
    cases found with
    | free place slash => cases h
    | taken place entry =>
      have hentry : entry ≠ .directory := by
        rintro rfl
        cases h
      cases htarget : disk.find false cwd target with
      | error refusal =>
        rw [htarget] at h
        cases entry <;> cases h
      | ok spot =>
        rw [htarget] at h
        refine ⟨place, entry, spot, ?_⟩
        cases spot with
        | free other slash =>
          cases slash with
          | true => cases entry <;> cases h
          | false =>
            refine ⟨other, rfl, hentry, rfl, .inl rfl, ?_⟩
            cases entry <;> cases h <;> rfl
        | taken other there =>
          have hthere : there ≠ .directory := by
            rintro rfl
            cases entry <;> cases h
          refine ⟨other, rfl, hentry, rfl, .inr ⟨there, hthere, rfl⟩, ?_⟩
          cases entry <;> cases there <;>
            first
              | exact absurd rfl hthere
              | exact absurd rfl hentry
              | cases h; rfl

/-! A refusal leaves the disk as it is. -/

theorem write_error {content : Bytes} {refusal : Refusal}
    (h : disk.write cwd path content = (.error refusal, after)) : after = disk := by
  unfold write at h
  split at h
  · cases h
  · cases h
    rfl
  · split at h <;> cases h
    rfl
  · cases h
    rfl

theorem remove_error {refusal : Refusal} (h : disk.remove cwd path = (.error refusal, after)) :
    after = disk := by
  unfold remove at h
  split at h <;> cases h <;> rfl

theorem rename_error {source target : Path} {refusal : Refusal}
    (h : disk.rename cwd source target = (.error refusal, after)) : after = disk := by
  unfold rename at h
  split at h
  case h_7 => split at h <;> cases h; rfl
  all_goals cases h <;> rfl

variable (hname : Path.IsName name) (hlink : disk.HasNoLink cwd path name)

include hname hlink

/-- A name below a path is taken where the name is in the path's directory. -/
theorem taken_join {follow : Bool} {place : Location} {entry : Entry}
    (h : disk.find follow cwd (path.join name) = .ok (.taken place entry)) :
    ∃ above, place = name :: above ∧ disk.directory? cwd path = some above ∧
      disk.entry? (name :: above) = some entry := by
  obtain ⟨-, above, habove, hspot⟩ := (find_join_iff hname hlink follow).1 h
  obtain ⟨rfl, hentry⟩ := spotIn_eq_taken.1 hspot.symm
  exact ⟨above, rfl, habove, hentry⟩

/-- So is a place where a file can be put. -/
theorem target_join {follow : Bool} {spot : Spot} {place : Location}
    (h : disk.find follow cwd (path.join name) = .ok spot) (htarget : Target spot place) :
    ∃ above, place = name :: above ∧ disk.directory? cwd path = some above ∧
      disk.way? (name :: above) = none := by
  obtain ⟨-, above, habove, hspot⟩ := (find_join_iff hname hlink follow).1 h
  rcases htarget with rfl | ⟨entry, hentry, rfl⟩
  · obtain ⟨rfl, -, hnone⟩ := spotIn_eq_free hspot.symm
    refine ⟨above, rfl, habove, ?_⟩
    rw [way?, hnone]
    rfl
  · obtain ⟨rfl, hsome⟩ := spotIn_eq_taken.1 hspot.symm
    refine ⟨above, rfl, habove, way?_eq_none ?_ (hlink above habove)⟩
    rw [hsome]
    exact fun heq => hentry (Option.some.inj heq)

theorem read_join_iff {content : Bytes} : disk.read cwd (path.join name) = .ok content ↔
    Askable (path.join name) name ∧ ∃ place, disk.directory? cwd path = some place ∧
      disk.entry? (name :: place) = some (.file content) := by
  rw [read_eq_ok]
  simp only [find_join_iff hname hlink, eq_comm (b := disk.spotIn _ _), spotIn_eq_taken]
  constructor
  · rintro ⟨_, hask, place, hplace, -, hentry⟩
    exact ⟨hask, place, hplace, hentry⟩
  · rintro ⟨hask, place, hplace, hentry⟩
    exact ⟨_, hask, place, hplace, rfl, hentry⟩

/-- A file in a directory reads the same as long as no way changes, nor what is in its place. -/
theorem read_join_congr (hways : disk.SameWays after)
    (hsame : ∀ place, disk.directory? cwd path = some place →
      after.entry? (name :: place) = disk.entry? (name :: place)) {content : Bytes} :
    after.read cwd (path.join name) = .ok content ↔ disk.read cwd (path.join name) = .ok content := by
  rw [read_join_iff hname hlink, read_join_iff hname (hlink.congr hways), directory?_congr hways]
  constructor
  · rintro ⟨hask, place, hplace, hentry⟩
    exact ⟨hask, place, hplace, hsame place hplace ▸ hentry⟩
  · rintro ⟨hask, place, hplace, hentry⟩
    exact ⟨hask, place, hplace, hsame place hplace ▸ hentry⟩

end ParseGoal.Disk
