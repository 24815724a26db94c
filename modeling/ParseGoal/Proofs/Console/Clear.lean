import ParseGoal.Proofs.Cache.Clearing
import ParseGoal.Proofs.Console.Run
import ParseGoal.Proofs.Settings.RoundTrip

/-!
Clearing the records by command. The records are listed first, and nothing is removed where none is listed,
whatever other files there are.
-/
namespace ParseGoal.Console

variable {environment : Environment} {words : List String} {line : CommandLine} {w w' : World}
  {cache : Cache} {home : Location} {settings : Settings}

/-- What clearing a directory of files makes of a world: records and drafts are gone, and counted. -/
structure Cleared (home : Location) (w w' : World) : Prop where
  gone : ∀ name, Cache.isOwnName name = true → w'.disk.entry? (name :: home) = none
  kept : ∀ place, (∀ name, Cache.isOwnName name = true → place ≠ name :: home) →
    w'.disk.entry? place = w.disk.entry? place
  counted : w'.output = w.output ++
    (s!"✓ cleared {(w.disk.names home).countP Cache.isRecordName} record(s)" ++ "\n")

/-- Nothing has been removed, and this is said. -/
structure LeftAlone (w w' : World) : Prop where
  disk : w'.disk = w.disk
  said : w'.output = w.output ++ ("No cached goals to clear." ++ "\n")

theorem cleared_of_removeAll (hfiles : cache.HoldsFiles w home)
    (hlist : w.disk.list w.cwd cache.directory = .ok (w.disk.names home))
    (hnames : ∀ name ∈ w.disk.names home, Path.IsName name)
    (hok : w.act (removeAll cache) = (.ok (), w')) : Cleared home w w' := by
  unfold removeAll at hok
  rw [World.act_bind, Cache.act_clear hlist] at hok
  split at hok
  case h_2 => cases hok
  next count hcount =>
  obtain ⟨hcount, houtput, hgone, hsame⟩ := hfiles.clearEach_ok hnames (Prod.ext hcount rfl)
  rw [World.act_ofProgram] at hok
  cases hok
  constructor
  · intro name hown
    change Disk.entry? (w.act (cache.clearEach (w.disk.names home))).2.disk (name :: home) = none
    by_cases hname : name ∈ w.disk.names home
    · exact hgone name hname hown
    · rw [hsame]
      · exact Option.eq_none_iff_forall_ne_some.2 fun entry hentry => hname (Disk.mem_names hentry)
      · rintro other hother - heq
        exact hname ((List.cons.inj heq).1 ▸ hother)
  · intro place hplace
    exact hsame place fun name _ hown => hplace name hown
  · rw [← hcount, ← houtput]
    rfl

/-- The records are listed, and removed if there are any. -/
theorem act_clearRecords (hfiles : cache.HoldsFiles w home)
    (hlist : w.disk.list w.cwd cache.directory = .ok (w.disk.names home))
    (hnames : ∀ name ∈ w.disk.names home, Path.IsName name)
    (hok : w.act (clearRecords cache true) = (.ok (), w')) :
    ((∃ name ∈ w.disk.names home, Cache.isRecordName name = true ∧ cache.HoldsRecord w name) →
      Cleared home w w') ∧
    (¬ (∃ name ∈ w.disk.names home, Cache.isRecordName name = true ∧ cache.HoldsRecord w name) →
      LeftAlone w w') := by
  unfold clearRecords at hok
  rw [World.act_bind_ok _ _ (Cache.act_list hlist)] at hok
  rw [← Cache.readEach_ne_nil]
  by_cases hnone : (w.run (cache.readEach (w.disk.names home))).1 = []
  · refine ⟨fun h => absurd hnone h, fun _ => ?_⟩
    rw [hnone, List.mergeSort_nil, if_pos rfl, World.act_ofProgram] at hok
    cases hok
    exact ⟨rfl, rfl⟩
  · refine ⟨fun _ => ?_, fun h => absurd hnone h⟩
    have hsorted : (w.run (cache.readEach (w.disk.names home))).1.mergeSort Cache.isBefore ≠ [] := by
      intro hnil
      have hlength := (List.mergeSort_perm (w.run (cache.readEach (w.disk.names home))).1
        Cache.isBefore).length_eq
      rw [hnil] at hlength
      exact hnone (List.eq_nil_of_length_eq_zero hlength.symm)
    rw [if_neg hsorted, if_pos rfl] at hok
    exact cleared_of_removeAll hfiles hlist hnames hok

/--
The command that clears a directory of regular files without asking. If it succeeds, either one of the files
could be read as a record of the current version, and then all records and drafts are gone, the records have
been counted whether they could be read or not, and everything else is as it was; or none could, and then
nothing at all is removed.
-/
theorem exit_of_cache_clear (environment : Environment) (words : List String) (line : CommandLine)
    (w : World) (settings : Settings) (home : Location)
    (hline : CommandLine.read environment words = .ok line) (hcommand : line.command = .cacheClear true)
    (hload : (w.act (Settings.load (settingsPath environment line))).1 = .ok settings)
    (hhome : w.disk.find true w.cwd (contextOf environment line settings).cache.directory =
      .ok (.taken home .directory))
    (hnames : ∀ name ∈ w.disk.names home, Path.IsName name)
    (hfiles : ∀ name entry, w.disk.entry? (name :: home) = some entry → ∃ content, entry = .file content)
    (hexit : (w.run (run environment words)).1 = 0) :
    ((∃ name ∈ w.disk.names home, Cache.isRecordName name = true ∧
        (contextOf environment line settings).cache.HoldsRecord w name) →
      Cleared home w (w.run (run environment words)).2) ∧
    (¬ (∃ name ∈ w.disk.names home, Cache.isRecordName name = true ∧
        (contextOf environment line settings).cache.HoldsRecord w name) →
      LeftAlone w (w.run (run environment words)).2) := by
  have hact := act_of_exit_zero hline hexit
  have hloaded : w.act (Settings.load (settingsPath environment line)) = (.ok settings, w) := by
    rw [(Settings.isQuiet_load _).act_eq, hload]
  rw [performLine_eq, hcommand, World.act_bind_ok _ _ hloaded] at hact
  have hlist : w.disk.list w.cwd (contextOf environment line settings).cache.directory =
      .ok (w.disk.names home) := by
    rw [Disk.list, Disk.locate_eq_ok.2 hhome]
    rfl
  exact act_clearRecords ⟨Disk.directory?_of_find hhome, hfiles⟩ hlist hnames hact

/-- Of a record that can be read, one that cannot, a draft and a text, only the text is left. -/
theorem exit_of_cache_clear_mixed :
    let record : Record := ⟨Record.currentVersion, "k", .script, ⟨"0", 0⟩, .epoch⟩
    let w : World := { disk := ⟨[(["c"], .directory), (["a.json", "c"], .file (Utf8.ofString record.text)),
      (["b.json", "c"], .file [0x7b]), (["a.0.tmp", "c"], .file []), (["notes.txt", "c"], .file [0x23])]⟩ }
    let words := ["--cache-dir", "c", "cache", "clear", "--yes"]
    (w.run (run ⟨[]⟩ words)).1 = 0 ∧ Cleared ["c"] w (w.run (run ⟨[]⟩ words)).2 := by
  intro record w words
  have hline : CommandLine.read ⟨[]⟩ words = .ok ⟨0, none, some "c", .cacheClear true⟩ := by decide +kernel
  have hload : (w.act (Settings.load (settingsPath ⟨[]⟩ ⟨0, none, some "c", .cacheClear true⟩))).1 =
      .ok {} := by decide +kernel
  have hnames : ∀ name ∈ w.disk.names ["c"], Path.IsName name := by
    have hlisted : w.disk.names ["c"] = ["a.json", "b.json", "a.0.tmp", "notes.txt"] := by decide +kernel
    rw [hlisted]
    simp only [List.mem_cons, List.not_mem_nil, or_false, forall_eq_or_imp, forall_eq]
    exact ⟨⟨by decide, by decide, by decide, by decide⟩, ⟨by decide, by decide, by decide, by decide⟩,
      ⟨by decide, by decide, by decide, by decide⟩, ⟨by decide, by decide, by decide, by decide⟩⟩
  have hfiles : ∀ name entry, w.disk.entry? (name :: ["c"]) = some entry →
      ∃ content, entry = .file content := by
    have hkind : w.disk.holdsOnly ["c"] (fun entry => !entry.isDirectory && !entry.isLink) = true := by
      decide +kernel
    intro name entry hentry
    have hfile := Disk.kind_of_holdsOnly hkind hentry
    cases entry with
    | file content => exact ⟨content, rfl⟩
    | directory => cases hfile
    | link target => cases hfile
  have hexit : (w.run (run ⟨[]⟩ words)).1 = 0 := by decide +kernel
  have hclear := exit_of_cache_clear ⟨[]⟩ words _ w {} ["c"] hline rfl hload (by decide +kernel) hnames hfiles
    hexit
  have hrecord : Cache.HoldsRecord ⟨"c"⟩ w "a.json" := Cache.holdsRecord_iff.2 (by decide +kernel)
  exact ⟨hexit, hclear.1 ⟨"a.json", by decide +kernel, by decide +kernel, hrecord⟩⟩

/-- Not every directory of regular files is cleared: one file that cannot be read as a record stays. -/
theorem cache_clear_not_clearing : ¬ ∀ content : Bytes,
    let w : World := { disk := ⟨[(["c"], .directory), (["a.json", "c"], .file content)]⟩ }
    let after := w.run (run ⟨[]⟩ ["--cache-dir", "c", "cache", "clear", "--yes"])
    after.1 = 0 → after.2.disk.entry? ["a.json", "c"] = none := by
  intro h
  have hgone := h [0x7b]
  revert hgone
  decide +kernel

end ParseGoal.Console
