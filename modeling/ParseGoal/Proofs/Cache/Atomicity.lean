import ParseGoal.Proofs.Cache.Phases

/-!
Storing is all or nothing: whatever fails and wherever the program is stopped, a lookup finds what it
found before or the new record, and an error leaves nothing behind.
-/
namespace ParseGoal.Cache

variable {c : Cache} {w w' : World} {record : Record} {draft key word : String} {disk : Disk}
  {ended failed : Bool}

/-- While directories are made, the same can be read. -/
theorem read_making (hready : c.isReady w = true) (hbefore : w.disk.Grows disk)
    (hafter : disk.Grows (c.made w)) {name : String} (hname : Path.IsName name) {content : Bytes} :
    disk.read w.cwd (c.directory.join name) = .ok content ↔
      w.disk.read w.cwd (c.directory.join name) = .ok content := by
  have hlink : disk.HasNoLink w.cwd c.directory name := fun home hhome target hentry =>
    made_hasNoLink hready name home (Disk.directory?_of_grows hafter hhome) target
      (Disk.entry?_of_grows hafter hentry)
  constructor
  · intro hread
    obtain ⟨hask, home, hhome, hentry⟩ := (Disk.read_join_iff hname hlink).1 hread
    refine (read_made hready hname).1 ((Disk.read_join_iff hname (made_hasNoLink hready name)).2 ?_)
    exact ⟨hask, home, Disk.directory?_of_grows hafter hhome, Disk.entry?_of_grows hafter hentry⟩
  · intro hread
    obtain ⟨hask, home, hhome, hentry⟩ :=
      (Disk.read_join_iff hname (hasNoLink_of_isReady hready name)).1 hread
    refine (Disk.read_join_iff hname hlink).2 ⟨hask, home, ?_, Disk.entry?_of_grows hbefore hentry⟩
    exact Disk.directory?_of_grows hbefore hhome

/-- A draft is never read in place of a record. -/
theorem Drafted.recordIn_eq {content : Option Bytes} (hready : c.isReady w = true)
    (h : Drafted c w (draftName key word) content w'.disk) (hcwd : w'.cwd = w.cwd) (other : String) :
    c.recordIn w' other = c.recordIn w other := by
  refine recordIn_congr fun bytes => ?_
  rw [hcwd]
  refine (Disk.read_join_congr (isName_recordName other) (made_hasNoLink hready _) h.sameWays ?_).trans
    (read_made hready (isName_recordName other))
  intro home hhome
  obtain ⟨there, hthere, -, hentry⟩ := h.place
  rw [hhome] at hthere
  cases hthere
  rw [hentry, if_neg]
  exact fun heq => recordName_ne_draftName other key word (List.cons.inj heq).1

/-- As long as the record is not in its place, every lookup finds what it found before. -/
theorem Pending.recordIn_eq (hready : c.isReady w = true)
    (h : Pending c w (draftName key word) ended w'.disk) (hcwd : w'.cwd = w.cwd) (other : String) :
    c.recordIn w' other = c.recordIn w other := by
  cases h with
  | making hbefore hafter =>
    refine recordIn_congr fun bytes => ?_
    rw [hcwd]
    exact read_making hready hbefore hafter (isName_recordName other)
  | drafted h => exact h.recordIn_eq hready hcwd other
  | cleared h => exact h.recordIn_eq hready hcwd other

theorem Placed.holding (h : Placed c w record (draftName record.key word) disk) :
    Holding c w record word disk := by
  obtain ⟨home, hhome, -, -, hentry⟩ := h.place
  refine ⟨h.sameWays, h.askable, home, hhome, ?_, fun name hrecord hdraft => ?_⟩
  · rw [hentry, if_pos rfl]
  · rw [hentry, if_neg fun heq => hrecord (List.cons.inj heq).1,
      if_neg fun heq => hdraft (List.cons.inj heq).1]

/--
Whether something is as it was before, or a directory that was made because the cache had none, or
where the draft of a store was and is not any more.
-/
def IsKept (c : Cache) (w : World) (draft : String) (disk : Disk) (place : Location) : Prop :=
  disk.entry? place = w.disk.entry? place ∨
    (w.disk.directory? w.cwd c.directory = none ∧ w.disk.entry? place = none ∧
      disk.entry? place = some .directory) ∨
    (∃ home, disk.directory? w.cwd c.directory = some home ∧ place = draft :: home) ∧
      disk.entry? place = none

theorem entry?_making (hbefore : w.disk.Grows disk) (hafter : disk.Grows (c.made w)) (place : Location) :
    disk.entry? place = w.disk.entry? place ∨ w.disk.directory? w.cwd c.directory = none ∧
      w.disk.entry? place = none ∧ disk.entry? place = some .directory := by
  cases hhome : w.disk.directory? w.cwd c.directory with
  | none => exact (hbefore place).imp_right fun h => ⟨rfl, h⟩
  | some home =>
    rw [made, Disk.makeDirectories_of_directory hhome] at hafter
    exact .inl (Disk.entry?_eq_of_grows hbefore hafter place)

/-- Once nothing more is done about a record that is not in its place, nothing is left of it. -/
theorem Pending.isKept (h : Pending c w draft true disk) (place : Location) : IsKept c w draft disk place := by
  cases h with
  | making hbefore hafter => exact (entry?_making hbefore hafter place).imp_right .inl
  | cleared h =>
    obtain ⟨home, hhome, -, hentry⟩ := h.place
    by_cases hplace : place = draft :: home
    · refine .inr (.inr ⟨⟨home, ?_, hplace⟩, (hentry place).trans (if_pos hplace)⟩)
      rw [Disk.directory?_congr h.sameWays, hhome]
    · have hgrows : w.disk.Grows (c.made w) := Disk.grows_makeDirectories
      have hmade := entry?_making hgrows (.refl _) place
      rw [← (hentry place).trans (if_neg hplace)] at hmade
      exact hmade.imp_right .inl

/--
Whatever fails while a record is stored, and wherever the program is stopped. A failure is reported, and
then everything is as it was, but for directories that were missing, and nothing is left of the draft. A
lookup of the key finds what it found before or the new record, and one of another key what it found before.
-/
theorem store_atomic {goal : Goal} {fingerprint : Fingerprint} {result : Option (Except Error Record)}
    (hready : c.isReady w = true) (h : Course w (c.store key goal fingerprint).run failed result w') :
    let record : Record := ⟨Record.currentVersion, key, goal, fingerprint, w.instant⟩
    (∀ answer, result = some answer →
      (failed = true → ∃ e, answer = .error e) ∧ (failed = false → answer = .ok record)) ∧
    (∀ e, result = some (.error e) →
      ∀ place, IsKept c w (draftName key (s!"{w.process}.{w.freshWords}")) w'.disk place) ∧
    (c.recordIn w' key = c.recordIn w key ∨ c.recordIn w' key = some record) ∧
    ∀ other, stem other ≠ stem key → c.recordIn w' other = c.recordIn w other := by
  intro record
  have hcwd := h.cwd_eq
  have hkey : record.key = key := rfl
  have hversion : record.version = Record.currentVersion := rfl
  have hstored := stored_of_store hready h (rfl : record = _)
  clear_value record
  subst hkey
  cases hstored with
  | stopped hpending =>
    have hsame := hpending.recordIn_eq hready hcwd
    refine ⟨?_, ?_, .inl (hsame _), fun other _ => hsame other⟩ <;>
    · rintro answer ⟨⟩
  | failed hpending =>
    have hsame := hpending.recordIn_eq hready hcwd
    refine ⟨?_, fun e _ => hpending.isKept, .inl (hsame _), fun other _ => hsame other⟩
    rintro answer ⟨⟩
    exact ⟨fun _ => ⟨_, rfl⟩, nofun⟩
  | placed hplaced =>
    have hholding := hplaced.holding
    refine ⟨?_, ?_, .inr (recordIn_of_holding hready hholding hcwd hversion), fun other hother => ?_⟩
    · rintro answer ⟨⟩
      exact ⟨nofun, fun _ => rfl⟩
    · rintro e ⟨⟩
    · exact recordIn_of_holding_ne hready hholding hcwd hother

/-- A directory is where the record belongs: the record is not stored, and what is there stays. -/
theorem store_atomic_of_occupied :
    let c : Cache := ⟨"/c"⟩
    let w : World := { disk := (Disk.empty.put ["c"] .directory).put [recordName "k", "c"] .directory }
    let call := c.store "k" .script ⟨"0", 0⟩
    c.isReady w = true ∧ (∃ e, (w.run call.run).1 = .error e) ∧
      ∀ place, IsKept c w (draftName "k" (s!"{w.process}.{w.freshWords}")) (w.run call.run).2.disk place := by
  intro c w call
  have hready : c.isReady w = true := by decide +kernel
  have hserves : w.serves call.run = false := by decide +kernel
  clear_value w
  have hcourse := w.course_run call.run
  rw [hserves] at hcourse
  obtain ⟨hanswer, hkept, -⟩ := store_atomic hready hcourse
  obtain ⟨e, he⟩ := (hanswer _ rfl).1 rfl
  exact ⟨hready, ⟨e, he⟩, hkept e (congrArg some he)⟩

/-- A program can be stopped once the directory is made. -/
theorem course_made (c : Cache) (w : World) (key : String) (goal : Goal) (fingerprint : Fingerprint) :
    Course w (c.store key goal fingerprint).run false none { w.tick with disk := c.made w } :=
  .answered (.stopped _ (.making (Disk.makeEach_mem_stages ..)))

/-- The entry for a record of a key. -/
private def kept (key : String) : Entry :=
  .file (Utf8.ofString (Record.text ⟨1, key, .script, ⟨"0", 0⟩, .epoch⟩))

/-- A world with a record in the directory `/c`, and one more entry there. -/
private def shelf (name other : String) (entry : Entry) : World where
  disk := ((Disk.empty.put ["c"] .directory).put [name, "c"] (kept "k")).put [other, "c"] entry

/--
Three provisos that cannot be left out. A path that leads to records only by way of a directory that is made
shows a record of another key that was not seen before. A link in the directory loses the record of another
key, if that record is where the new one is stored. And where a path cannot be made to its end, the first
directories of it stay.
-/
theorem store_atomic_provisos : stem "k" ≠ stem "j" ∧
    (∃ (c : Cache) (w w' : World), Course w (c.store "j" .script ⟨"0", 0⟩).run false none w' ∧
      (c.recordIn w "k").isSome = false ∧ (c.recordIn w' "k").isSome = true) ∧
    (∃ (c : Cache) (w w' : World) (answer : Except Error Record),
      Course w (c.store "j" .script ⟨"0", 0⟩).run false (some answer) w' ∧
        (c.recordIn w "k").isSome = true ∧ (c.recordIn w' "k").isSome = false) ∧
    ∃ (c : Cache) (w w' : World) (answer : Except Error Record) (place : Location),
      Course w (c.store "j" .script ⟨"0", 0⟩).run true (some answer) w' ∧
        w.disk.entry? place = none ∧ w'.disk.entry? place = some .directory := by
  have hstem : stem "k" ≠ stem "j" := by decide +kernel
  have hdetour : let c : Cache := ⟨"/n/../c"⟩
      let w := shelf (recordName "k") "x" (.file [])
      (c.recordIn w "k").isSome = false ∧
        (c.recordIn { w.tick with disk := c.made w } "k").isSome = true := by
    decide +kernel
  let link : World := shelf (recordName "j") (recordName "k") (.link (recordName "j"))
  have hserves : link.serves (store ⟨"/c"⟩ "j" .script ⟨"0", 0⟩).run = true := by decide +kernel
  have hfound : (recordIn ⟨"/c"⟩ link "k").isSome = true := by decide +kernel
  have hlost : (recordIn ⟨"/c"⟩ (link.act (store ⟨"/c"⟩ "j" .script ⟨"0", 0⟩)).2 "k").isSome = false := by
    decide +kernel
  have hleft : let c : Cache := ⟨"/n/../f"⟩
      let w : World := { disk := Disk.empty.put ["f"] (.file []) }
      let call := c.store "j" .script ⟨"0", 0⟩
      w.serves call.run = false ∧ w.disk.entry? ["n"] = none ∧
        (w.run call.run).2.disk.entry? ["n"] = some .directory := by
    decide +kernel
  refine ⟨hstem, ⟨_, _, _, course_made .., hdetour.1, hdetour.2⟩, ?_, ?_⟩
  · exact ⟨_, _, _, _, .of_serves hserves, hfound, hlost⟩
  · obtain ⟨hserves, hbefore, hafter⟩ := hleft
    exact ⟨_, _, _, _, _, hserves ▸ World.course_run .., hbefore, hafter⟩

end ParseGoal.Cache
