import ParseGoal.Proofs.Cache.Store
import ParseGoal.Proofs.Course

/-!
The disks that storing a record goes through, whatever fails: directories are made, a draft is written
beside the records, and the record takes its place.
-/
namespace ParseGoal.Cache

variable {c : Cache} {w : World} {record : Record} {draft : String} {disk : Disk}

/-- The disk once the directory is made, but for a draft, of which this is left. -/
structure Drafted (c : Cache) (w : World) (draft : String) (content : Option Bytes) (disk : Disk) : Prop where
  askable : Disk.Askable (c.directory.join draft) draft
  place : ∃ home, (c.made w).directory? w.cwd c.directory = some home ∧
    (c.made w).way? (draft :: home) = none ∧ ∀ place, disk.entry? place =
      if place = draft :: home then content.map .file else Disk.entry? (c.made w) place

/-- The disk once the record is in its place, and the draft is not there any more. -/
structure Placed (c : Cache) (w : World) (record : Record) (draft : String) (disk : Disk) : Prop where
  askable : Disk.Askable (c.recordPath record.key) (recordName record.key)
  place : ∃ home, (c.made w).directory? w.cwd c.directory = some home ∧
    (c.made w).way? (draft :: home) = none ∧ (c.made w).way? (recordName record.key :: home) = none ∧
    ∀ place, disk.entry? place =
      if place = recordName record.key :: home then some (.file (Utf8.ofString record.text))
      else if place = draft :: home then none else Disk.entry? (c.made w) place

theorem Drafted.sameWays {content : Option Bytes} (h : Drafted c w draft content disk) :
    (c.made w).SameWays disk := by
  obtain ⟨home, -, hway, hentry⟩ := h.place
  intro place
  rw [Disk.way?, hentry]
  by_cases hplace : place = draft :: home
  · rw [if_pos hplace, hplace, hway]
    cases content <;> rfl
  · rw [if_neg hplace, ← Disk.way?]

theorem Placed.sameWays (h : Placed c w record draft disk) : (c.made w).SameWays disk := by
  obtain ⟨home, -, hway, hway', hentry⟩ := h.place
  intro place
  rw [Disk.way?, hentry]
  by_cases hplace : place = recordName record.key :: home
  · rw [if_pos hplace, hplace, hway']
    rfl
  by_cases hdraft : place = draft :: home
  · rw [if_neg hplace, if_pos hdraft, hdraft, hway]
    rfl
  · rw [if_neg hplace, if_neg hdraft, ← Disk.way?]

section

variable (hready : c.isReady w = true) (hdraft : Path.IsName draft)

include hready hdraft

/-- What writes to a draft is refused, or leaves what it writes. -/
theorem drafted_of_write (content : Bytes) {answer : Except Refusal Unit}
    (h : (c.made w).write w.cwd (c.directory.join draft) content = (answer, disk)) :
    (∃ refusal, answer = .error refusal) ∧ disk = c.made w ∨
      answer = .ok () ∧ Drafted c w draft (some content) disk := by
  cases answer with
  | error refusal => exact .inl ⟨⟨refusal, rfl⟩, Disk.write_error h⟩
  | ok _ =>
    obtain ⟨spot, place, hfind, htarget, rfl⟩ := Disk.write_ok h
    have hlink := made_hasNoLink hready draft
    obtain ⟨home, rfl, hhome, hway⟩ := Disk.target_join hdraft hlink hfind htarget
    refine .inr ⟨rfl, ((Disk.find_join_iff hdraft hlink true).1 hfind).1, home, hhome, hway, fun place => ?_⟩
    exact Disk.entry?_put ..

/-- Without the draft, nothing is left of it. -/
theorem drafted_of_remove (hways : (c.made w).SameWays disk)
    (hothers : ∀ home, (c.made w).directory? w.cwd c.directory = some home → ∀ place,
      place ≠ draft :: home → disk.entry? place = Disk.entry? (c.made w) place)
    {answer : Except Refusal Unit} {after : Disk}
    (h : disk.remove w.cwd (c.directory.join draft) = (answer, after)) :
    (∃ refusal, answer = .error refusal) ∧ after = disk ∨
      answer = .ok () ∧ Drafted c w draft none after := by
  cases answer with
  | error refusal => exact .inl ⟨⟨refusal, rfl⟩, Disk.remove_error h⟩
  | ok _ =>
    obtain ⟨place, entry, hfind, hentry, rfl⟩ := Disk.remove_ok h
    have hlink := (made_hasNoLink hready draft).congr hways
    obtain ⟨home, rfl, hhome, hway⟩ := Disk.target_join hdraft hlink hfind (.inr ⟨entry, hentry, rfl⟩)
    rw [Disk.directory?_congr hways] at hhome
    rw [hways] at hway
    refine .inr ⟨rfl, ((Disk.find_join_iff hdraft hlink false).1 hfind).1, home, hhome, hway, fun place => ?_⟩
    rw [Disk.entry?_erase]
    by_cases hplace : place = draft :: home
    · rw [if_pos hplace, if_pos hplace]
      rfl
    · rw [if_neg hplace, if_neg hplace, hothers home hhome place hplace]

/-- A draft that is there can be removed. -/
theorem Drafted.remove {content : Bytes} (hdrafted : Drafted c w draft (some content) disk) {after : Disk}
    {answer : Except Refusal Unit} (h : disk.remove w.cwd (c.directory.join draft) = (answer, after)) :
    answer = .ok () ∧ Drafted c w draft none after := by
  have hways := hdrafted.sameWays
  obtain ⟨home, hhome, -, hentry⟩ := hdrafted.place
  have hothers : ∀ place, place ≠ draft :: home → disk.entry? place = Disk.entry? (c.made w) place :=
    fun place hplace => (hentry place).trans (if_neg hplace)
  have hremoved := drafted_of_remove hready hdraft hways (fun _ hother => by
    rw [hhome] at hother
    cases hother
    exact hothers) h
  refine hremoved.resolve_left ?_
  rintro ⟨⟨refusal, rfl⟩, -⟩
  have hfile : disk.entry? (draft :: home) = some (.file content) := (hentry _).trans (if_pos rfl)
  have hfind : disk.find false w.cwd (c.directory.join draft) = .ok (.taken (draft :: home) (.file content)) :=
    (Disk.find_join_iff hdraft ((made_hasNoLink hready draft).congr hways) false).2 ⟨hdrafted.askable, home,
      (Disk.directory?_congr hways ..).trans hhome, (Disk.spotIn_eq_taken.2 ⟨rfl, hfile⟩).symm⟩
  rw [Disk.remove, hfind] at h
  cases h

/-- A draft that holds all of a record is moved to its place, or stays. -/
theorem Drafted.rename (hdrafted : Drafted c w draft (some (Utf8.ofString record.text)) disk)
    {after : Disk} {answer : Except Refusal Unit}
    (h : disk.rename w.cwd (c.directory.join draft) (c.recordPath record.key) = (answer, after)) :
    (∃ refusal, answer = .error refusal) ∧ after = disk ∨
      answer = .ok () ∧ Placed c w record draft after := by
  cases answer with
  | error refusal => exact .inl ⟨⟨refusal, rfl⟩, Disk.rename_error h⟩
  | ok _ =>
    have hways := hdrafted.sameWays
    have hrecord := isName_recordName record.key
    have hlink (name : String) := (made_hasNoLink hready name).congr hways
    obtain ⟨_, entry, _, _, hsource, -, hto, htarget, rfl⟩ := Disk.rename_ok h
    have hask := ((Disk.find_join_iff hrecord (hlink _) false).1 hto).1
    obtain ⟨home, rfl, hhome, hmoved⟩ := Disk.taken_join hdraft (hlink _) hsource
    obtain ⟨target, rfl, htargeted, hfree⟩ := Disk.target_join hrecord (hlink _) hto htarget
    rw [hhome] at htargeted
    cases htargeted
    rw [Disk.directory?_congr hways] at hhome
    rw [hways] at hfree
    obtain ⟨there, hthere, hway, hentry⟩ := hdrafted.place
    rw [hhome] at hthere
    cases hthere
    rw [hentry, if_pos rfl] at hmoved
    cases hmoved
    refine .inr ⟨rfl, hask, home, hhome, hway, hfree, fun place => ?_⟩
    rw [Disk.entry?_put, Disk.entry?_erase, hentry]
    by_cases hplace : place = draft :: home <;> simp [hplace]

end

/-- What is on the disk as long as the record is not in its place; `ended` tells that nothing more is done. -/
inductive Pending (c : Cache) (w : World) (draft : String) : (ended : Bool) → Disk → Prop
  /-- Some directories are made. -/
  | making {ended : Bool} {disk : Disk} (hbefore : w.disk.Grows disk) (hafter : disk.Grows (c.made w)) :
      Pending c w draft ended disk
  | drafted {content : Bytes} {disk : Disk} (h : Drafted c w draft (some content) disk) :
      Pending c w draft false disk
  | cleared {ended : Bool} {disk : Disk} (h : Drafted c w draft none disk) : Pending c w draft ended disk

/-- How a course of storing a record ends. -/
inductive Stored (c : Cache) (w : World) (record : Record) (draft : String) {α : Type} (value : α) :
    Bool → Option (Except Error α) → Disk → Prop
  | stopped {failed : Bool} {disk : Disk} (h : Pending c w draft false disk) :
      Stored c w record draft value failed none disk
  | failed {e : Error} {disk : Disk} (h : Pending c w draft true disk) :
      Stored c w record draft value true (some (.error e)) disk
  | placed {disk : Disk} (h : Placed c w record draft disk) :
      Stored c w record draft value false (some (.ok value)) disk

variable {failed : Bool} {middle after : World}

theorem pending_made (c : Cache) (w : World) (draft : String) (ended : Bool) :
    Pending c w draft ended (c.made w) := .making Disk.grows_makeDirectories (.refl _)

section

variable (hready : c.isReady w = true) (hdraft : Path.IsName draft) (hcwd : middle.cwd = w.cwd)

include hready hdraft hcwd

/-- What is left when the draft is given up. -/
theorem stored_of_abandoned {blamed : Path} {refusal : Refusal} {result : Option (Except Error Unit)}
    (hdisk : middle.disk = c.made w ∨ ∃ content, Drafted c w draft (some content) middle.disk)
    (h : Course middle (do
      let _ ← Action.ofProgram (Program.request (.removeFile (c.directory.join draft)))
      throw (.cacheWrite blamed refusal.reason) : Action Unit).run failed result after) :
    Stored c w record draft () true result after.disk := by
  have hpending : Pending c w draft false middle.disk := by
    rcases hdisk with hmade | ⟨content, hdrafted⟩
    · rw [hmade]
      exact pending_made c w draft false
    · exact .drafted hdrafted
  rcases Course.of_ask h with ⟨-, rfl, disk, ⟨⟩, rfl⟩ | ⟨later, -, hdone⟩ |
    ⟨-, refuse, _, _, _, hrefuse, -, -⟩
  · exact .stopped hpending
  · cases hdone
    refine .failed ?_
    rcases hremove : middle.disk.remove middle.cwd (c.directory.join draft) with ⟨answer, removed⟩
    have hafter : (middle.perform (.removeFile (c.directory.join draft))).2.disk = removed := by
      rw [World.perform, World.withDisk, hremove]
    rw [hafter]
    rw [hcwd] at hremove
    rcases hdisk with hmade | ⟨content, hdrafted⟩
    · rw [hmade] at hremove
      rcases drafted_of_remove hready hdraft (fun _ => rfl) (fun _ _ _ _ => rfl) hremove with
        ⟨-, rfl⟩ | ⟨-, hcleared⟩
      · exact pending_made c w draft true
      · exact .cleared hcleared
    · exact .cleared (hdrafted.remove hready hdraft hremove).2
  · cases hrefuse

/-- A text is written to the draft wholly, partly or not at all. -/
theorem pending_of_torn {content : Bytes} (hmade : middle.disk = c.made w)
    (h : middle.disk.Torn middle.cwd (.writeFile (c.directory.join draft) content) disk) :
    disk = c.made w ∨ ∃ content, Drafted c w draft (some content) disk := by
  cases h with
  | before => exact .inl hmade
  | writing _ _ part =>
    rw [hmade, hcwd]
    rcases drafted_of_write hready hdraft part rfl with ⟨-, hsame⟩ | ⟨-, hdrafted⟩
    · exact .inl hsame
    · exact .inr ⟨part, hdrafted⟩

/-- The rest of storing a record, once the draft is written. -/
theorem stored_of_rename
    (hdrafted : Drafted c w draft (some (Utf8.ofString record.text)) middle.disk)
    {next : Except Refusal Unit → Action Unit} (hok : next (.ok ()) = pure ())
    (herror : ∀ refusal, next (.error refusal) = (do
      let _ ← Action.ofProgram (Program.request (.removeFile (c.directory.join draft)))
      throw (.cacheWrite (c.recordPath record.key) refusal.reason)))
    {result : Option (Except Error Unit)}
    (h : Course middle (Action.ofProgram (Program.request
      (.rename (c.directory.join draft) (c.recordPath record.key))) >>= next).run failed result after) :
    Stored c w record draft () failed result after.disk := by
  rcases Course.of_ask h with ⟨rfl, rfl, disk, ⟨⟩, rfl⟩ | ⟨later, rfl, hrenamed⟩ |
    ⟨rfl, refuse, refusal, disk, later, hrefuse, ⟨⟩, habandoned⟩
  · exact .stopped (.drafted hdrafted)
  · rcases hrename : middle.disk.rename middle.cwd (c.directory.join draft) (c.recordPath record.key) with
      ⟨answer, placed⟩
    have hanswered : middle.perform (.rename (c.directory.join draft) (c.recordPath record.key)) =
        (answer, { middle with disk := placed }) := by
      rw [World.perform, World.withDisk, hrename]
    rw [hanswered] at hrenamed ⊢
    rw [hcwd] at hrename
    rcases hdrafted.rename hready hdraft hrename with ⟨⟨refusal, rfl⟩, rfl⟩ | ⟨rfl, hplaced⟩
    · rw [herror] at hrenamed
      exact stored_of_abandoned hready hdraft hcwd (.inr ⟨_, hdrafted⟩) hrenamed
    · rw [hok] at hrenamed
      cases hrenamed
      exact .placed hplaced
  · cases hrefuse
    rw [herror] at habandoned
    exact stored_of_abandoned hready hdraft hcwd (.inr ⟨_, hdrafted⟩) habandoned

theorem stored_of_place (hdisk : middle.disk = c.made w) {result : Option (Except Error Unit)}
    (h : Course middle (place (c.directory.join draft) (c.recordPath record.key) record.text).run failed
      result after) : Stored c w record draft () failed result after.disk := by
  unfold place at h
  rcases Course.of_ask h with ⟨rfl, rfl, disk, htorn, rfl⟩ | ⟨later, rfl, hwritten⟩ |
    ⟨rfl, refuse, refusal, disk, later, hrefuse, htorn, habandoned⟩
  · rcases pending_of_torn hready hdraft hcwd hdisk htorn with rfl | ⟨content, hdrafted⟩
    · exact .stopped (pending_made ..)
    · exact .stopped (.drafted hdrafted)
  · rcases hwrite : middle.disk.write middle.cwd (c.directory.join draft) (Utf8.ofString record.text) with
      ⟨answer, drafted⟩
    have hanswered : middle.perform (.writeFile (c.directory.join draft) (Utf8.ofString record.text)) =
        (answer, { middle with disk := drafted }) := by
      rw [World.perform, World.withDisk, hwrite]
    rw [hanswered] at hwritten ⊢
    rw [hdisk, hcwd] at hwrite
    have hcwd' : World.cwd { middle with disk := drafted } = w.cwd := hcwd
    rcases drafted_of_write hready hdraft _ hwrite with ⟨⟨refusal, rfl⟩, hsame⟩ | ⟨rfl, hdrafted⟩
    · exact stored_of_abandoned hready hdraft hcwd' (.inl hsame) hwritten
    · exact stored_of_rename hready hdraft hcwd' hdrafted rfl (fun _ => rfl) hwritten
  · cases hrefuse
    have hcwd' : World.cwd { middle with disk := disk } = w.cwd := hcwd
    exact stored_of_abandoned hready hdraft hcwd' (pending_of_torn hready hdraft hcwd hdisk htorn) habandoned

end

/-- The rest of storing a record, once the directory is made. -/
theorem stored_of_draft (hready : c.isReady w = true) {word : String} (hword : '/' ∉ word.toList)
    (hcwd : middle.cwd = w.cwd) (hdisk : middle.disk = c.made w)
    (hfresh : (middle.perform .freshWord).1 = word) {result : Option (Except Error Record)}
    (h : Course middle (do
      let word ← Action.ofProgram (Program.request .freshWord)
      place (c.draftPath record.key word) (c.recordPath record.key) record.text
      return record : Action Record).run failed result after) :
    Stored c w record (draftName record.key word) record failed result after.disk := by
  rcases Course.of_ask h with ⟨rfl, rfl, disk, ⟨⟩, rfl⟩ | ⟨later, rfl, h⟩ |
    ⟨-, _, _, _, _, hrefuse, -⟩
  · rw [hdisk]
    exact .stopped (pending_made ..)
  · rw [hfresh] at h
    have hcwd' : (middle.perform .freshWord).2.cwd = w.cwd := hcwd
    have hstored {failed : Bool} {answer : Option (Except Error Unit)} {end' : World}
        (h : Course (middle.perform .freshWord).2 (place (c.directory.join (draftName record.key word))
          (c.recordPath record.key) record.text).run failed answer end') :=
      stored_of_place hready (isName_draftName record.key hword) hcwd' hdisk h
    rcases Course.of_act_bind h with ⟨hplacing, rfl⟩ | ⟨e, hplacing, rfl⟩ |
      ⟨first, second, _, placed, hplacing, hdone, rfl⟩
    · cases hstored hplacing with
      | stopped hpending => exact .stopped hpending
    · rcases hstored hplacing with ⟨⟩ | hpending
      exact .failed hpending
    · cases hdone
      cases hstored hplacing with
      | placed hplaced => exact .placed hplaced
  · cases hrefuse

/-- What storing a record leaves, whatever course it takes. -/
theorem stored_of_store (hready : c.isReady w = true) {key : String} {goal : Goal}
    {fingerprint : Fingerprint} {result : Option (Except Error Record)}
    (h : Course w (c.store key goal fingerprint).run failed result after)
    (hrecord : record = ⟨Record.currentVersion, key, goal, fingerprint, w.instant⟩) :
    Stored c w record (draftName record.key (s!"{w.process}.{w.freshWords}")) record failed result
      after.disk := by
  unfold store at h
  rcases Course.of_ask h with ⟨rfl, rfl, disk, ⟨⟩, rfl⟩ | ⟨later, rfl, h⟩ |
    ⟨-, _, _, _, _, hrefuse, -⟩
  · exact .stopped (.making (.refl _) Disk.grows_makeDirectories)
  · rcases Course.of_act_bind h with ⟨hmaking, rfl⟩ | ⟨e, hmaking, rfl⟩ |
      ⟨first, second, value, middle, hmaking, hplacing, rfl⟩
    · obtain ⟨_, hmaking, -⟩ := Course.of_orFail hmaking
      obtain ⟨hbefore, hafter, -⟩ := Course.of_makeDirectories hmaking
      exact .stopped (.making hbefore hafter)
    · obtain ⟨answer, hmaking, hanswer⟩ := Course.of_orFail hmaking
      obtain ⟨hbefore, hafter, hfailed, -⟩ := Course.of_makeDirectories hmaking
      rcases answer with _ | _ | _ <;> cases hanswer
      rw [hfailed _ rfl]
      exact .failed (.making hbefore hafter)
    · obtain ⟨answer, hmaking, hanswer⟩ := Course.of_orFail hmaking
      obtain ⟨-, -, -, hmade⟩ := Course.of_makeDirectories hmaking
      rcases answer with _ | _ | _ <;> cases hanswer
      obtain ⟨rfl, rfl⟩ := hmade rfl
      rw [hrecord]
      have hcwd : World.cwd { w.tick with disk := c.made w } = w.cwd := rfl
      exact stored_of_draft hready (slash_not_mem_freshWord w.process w.freshWords) hcwd rfl rfl hplacing
  · cases hrefuse

/-- Where nothing fails, the record ends in its place. -/
theorem placed_of_serves (hready : c.isReady w = true) {key : String} {goal : Goal}
    {fingerprint : Fingerprint} (hserves : w.serves (c.store key goal fingerprint).run = true)
    (hrecord : record = ⟨Record.currentVersion, key, goal, fingerprint, w.instant⟩) :
    (w.act (c.store key goal fingerprint)).1 = .ok record ∧
      Placed c w record (draftName record.key (s!"{w.process}.{w.freshWords}"))
        (w.act (c.store key goal fingerprint)).2.disk := by
  have hstored := stored_of_store hready (Course.of_serves hserves) hrecord
  change Stored _ _ _ _ _ _ (some (w.act _).1) (w.act _).2.disk at hstored
  generalize (w.act (c.store key goal fingerprint)).1 = answer at hstored ⊢
  cases hstored with
  | placed hplaced => exact ⟨rfl, hplaced⟩

end ParseGoal.Cache
