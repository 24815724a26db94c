import ParseGoal.Proofs.Cache.Effects
import ParseGoal.Proofs.Console.Run
import ParseGoal.Proofs.Disk.Ways
import ParseGoal.Proofs.Settings.RoundTrip

/-!
Removing the record of a file that is gone. The file was resolved under its canonical path, and a file that is
gone has none: the path is then taken as it is written, after the working directory, without following its
dots and links.
-/
namespace ParseGoal

/-- Where a file was, nothing is once it is erased. -/
theorem Disk.locate_erase {disk : Disk} {cwd place : Location} {path : Path} {content : Bytes}
    (h : disk.locate cwd path = .ok (place, .file content)) :
    (disk.erase place).locate cwd path = .error .missing := by
  have hfind := locate_eq_ok.1 h
  obtain ⟨name, above, rfl, hentry, -⟩ := isTaken_of_find Entry.noConfusion hfind
  have hway : disk.way? (name :: above) = none := by
    rw [way?, hentry]
    rfl
  have hgone := find_of_keepsWays (sameWays_erase hway).keepsWays hfind (.inr ⟨_, Entry.noConfusion, rfl⟩)
  rw [spotIn, entry?_erase, if_pos rfl] at hgone
  rw [locate, hgone]
  rfl

namespace Cache

variable {c : Cache} {w w' : World} {key other : String} {record : Record}

/-- What is looked up depends on the disk and the working directory alone. -/
theorem recordIn_of_disk_eq (hdisk : w'.disk = w.disk) (hcwd : w'.cwd = w.cwd) (key : String) :
    c.recordIn w' key = c.recordIn w key :=
  recordIn_congr fun bytes => by rw [hdisk, hcwd]

/-- A record that can be looked up can be removed. -/
theorem disk_remove_of_record (hready : c.isReady w = true) (hrecord : c.recordIn w key = some record) :
    ∃ removed, w.disk.remove w.cwd (c.recordPath key) = (.ok (), removed) := by
  obtain ⟨bytes, hread, -⟩ := recordIn_eq_some.1 hrecord
  have hlink := hasNoLink_of_isReady hready (recordName key)
  have hname := isName_recordName key
  obtain ⟨hask, home, hhome, hentry⟩ := (Disk.read_join_iff hname hlink).1 hread
  have hfind := (Disk.find_join_iff hname hlink false).2
    ⟨hask, home, hhome, (Disk.spotIn_eq_taken.2 ⟨rfl, hentry⟩).symm⟩
  exact ⟨_, by rw [Disk.remove, recordPath, ← recordName, hfind]⟩

theorem grants_remove {disk : Disk} (h : w.disk.remove w.cwd (c.recordPath key) = (.ok (), disk)) :
    w.grants (c.remove key).run = true := by
  have hanswer : w.perform (.removeFile (c.recordPath key)) = (.ok (), { w with disk := disk }) := by
    rw [World.perform, World.withDisk, h]
  rw [remove, removeFile, World.grants_ask _ hanswer]
  rfl

/-- Removing the record of a key, whether it succeeds or not, leaves the records of others. -/
theorem recordIn_remove_other (hready : c.isReady w = true) (hstem : stem other ≠ stem key) :
    c.recordIn (w.act (c.remove key)).2 other = c.recordIn w other := by
  rcases hremove : w.disk.remove w.cwd (c.recordPath key) with ⟨answer, disk⟩
  cases answer with
  | ok _ => exact recordIn_remove_ne hready (grants_remove hremove) hstem
  | error refusal =>
    obtain rfl := Disk.remove_error hremove
    have hanswer : w.perform (.removeFile (c.recordPath key)) = (.error refusal, w) := by
      rw [World.perform, World.withDisk, hremove]
    have hsame : (w.act (c.remove key)).2 = w := by
      rw [remove, removeFile, World.act_ask _ hanswer]
      cases refusal <;> rfl
    rw [hsame]

end Cache

namespace Console

variable {environment : Environment} {words : List String} {line : CommandLine} {c : Cache} {w : World}
  {path : Path}

/-- The key of a path that leads nowhere is the path after the working directory. -/
theorem act_keyOf_of_missing (hmissing : w.disk.locate w.cwd path = .error .missing) :
    w.act (keyOf path) = (.ok (w.cwd.path.join path), w) := by
  have hanswer : w.perform (.canonicalize path) = (.error .missing, w) := by
    rw [World.perform, Disk.canonical, hmissing]
    rfl
  change w.run (.ask (.canonicalize path) _) = _
  rw [World.run, hanswer]
  rfl

/-- What is said of the removal of a record. -/
def removalNote (key : String) (removed : Bool) : String :=
  if removed then s!"✓ removed cache record for {key}" else s!"No cache record for {key}"

/-- The record of a path that leads nowhere is removed under that key. -/
theorem act_removeRecord_of_missing (hmissing : w.disk.locate w.cwd path = .error .missing) :
    w.act (removeRecord c path) = w.act (do
      let removed ← c.remove (w.cwd.path.join path)
      Action.ofProgram (Program.printLine (removalNote (w.cwd.path.join path) removed))) := by
  unfold removeRecord
  rw [World.act_bind_ok _ _ (act_keyOf_of_missing hmissing)]
  congr 2
  funext removed
  cases removed <;> rfl

/-- The same, with what is left of the disk. -/
theorem disk_removeRecord_of_missing (hmissing : w.disk.locate w.cwd path = .error .missing) :
    (w.act (removeRecord c path)).2.disk = (w.act (c.remove (w.cwd.path.join path))).2.disk := by
  rw [act_removeRecord_of_missing hmissing, World.act_bind]
  generalize w.act (c.remove (w.cwd.path.join path)) = done
  obtain ⟨answer, after⟩ := done
  cases answer <;> rfl

/-- A command is carried out once the settings are loaded. -/
theorem act_performLine {settings : Settings}
    (hload : (w.act (Settings.load (settingsPath environment line))).1 = .ok settings) :
    w.act (performLine environment line) =
      w.act (perform (contextOf environment line settings) line.command) := by
  have hloaded : w.act (Settings.load (settingsPath environment line)) = (.ok settings, w) := by
    rw [(Settings.isQuiet_load _).act_eq, hload]
  rw [performLine_eq, World.act_bind_ok _ _ hloaded]

/-- A command line leaves the disk as its command does, whether that fails or not. -/
theorem disk_run (hread : CommandLine.read environment words = .ok line) :
    (w.run (run environment words)).2.disk = (w.act (performLine environment line)).2.disk := by
  rcases hact : w.act (performLine environment line) with ⟨answer, after⟩
  cases answer with
  | ok _ => rw [run_ok hread hact]
  | error e => rw [run_error hread hact, run_reportError]

/--
The command that removes the record of a file that is gone, its directories and links left in place. The file was resolved
under its canonical path. The record of that key is removed where the path of the command, after the working directory, is
the canonical path to the letter; where it is any other spelling of the path, with dots, repeated slashes or through links,
the record stays.
-/
theorem exit_of_cache_remove_gone (environment : Environment) (words : List String) (line : CommandLine)
    (path : Path) (w gone : World) (settings : Settings) (place : Location) (content : Bytes) (record : Record)
    (hline : CommandLine.read environment words = .ok line) (hcommand : line.command = .cacheRemove path)
    (hfile : w.disk.locate w.cwd path = .ok (place, .file content))
    (hdisk : gone.disk = w.disk.erase place) (hcwd : gone.cwd = w.cwd)
    (hload : (gone.act (Settings.load (settingsPath environment line))).1 = .ok settings)
    (hready : (contextOf environment line settings).cache.isReady gone = true)
    (hrecord : (contextOf environment line settings).cache.recordIn gone place.path = some record)
    (hapart : Cache.KeptApart place.path (w.cwd.path.join path)) :
    w.act (SourceUnit.keyOf path) = (.ok place.path, w) ∧
    (w.cwd.path.join path = place.path → (gone.run (run environment words)).1 = 0 ∧
      (contextOf environment line settings).cache.recordIn (gone.run (run environment words)).2 place.path =
        none) ∧
    (w.cwd.path.join path ≠ place.path →
      (contextOf environment line settings).cache.recordIn (gone.run (run environment words)).2 place.path =
        some record) := by
  have hact := act_performLine hload
  rw [hcommand, perform] at hact
  generalize (contextOf environment line settings).cache = c at hact hready hrecord ⊢
  have hmissing : gone.disk.locate gone.cwd path = .error .missing := by
    rw [hdisk, hcwd, Disk.locate_erase hfile]
  have hafter : (gone.run (run environment words)).2.disk =
      (gone.act (c.remove (w.cwd.path.join path))).2.disk := by
    rw [disk_run hline, hact, disk_removeRecord_of_missing hmissing, hcwd]
  have hsame (key : String) : c.recordIn (gone.run (run environment words)).2 key =
      c.recordIn (gone.act (c.remove (w.cwd.path.join path))).2 key :=
    Cache.recordIn_of_disk_eq hafter (by rw [World.cwd_run, World.cwd_act]) key
  refine ⟨?_, fun hspelled => ⟨?_, ?_⟩, fun hspelled => ?_⟩
  · rw [SourceUnit.keyOf, World.act_orFail, World.run_request, World.perform, Disk.canonical, hfile]
    rfl
  · obtain ⟨removed, hremove⟩ := Cache.disk_remove_of_record hready hrecord
    rw [act_removeRecord_of_missing hmissing, hcwd, hspelled,
      World.act_bind_ok _ _ (Cache.act_remove_ok hremove), World.act_ofProgram] at hact
    rw [run_ok hline hact]
  · obtain ⟨removed, hremove⟩ := Cache.disk_remove_of_record hready hrecord
    rw [hsame, hspelled]
    exact Cache.recordIn_remove hready (Cache.grants_remove hremove) rfl
  · rw [hsame, ← hrecord]
    exact Cache.recordIn_remove_other hready fun hstem => hspelled (hapart hstem).symm

/-- Of two spellings of a path in the working directory, one removes the record and one does not. -/
theorem exit_of_cache_remove_gone_dot :
    let key := "/d/a.js"
    let record : Record := ⟨Record.currentVersion, key, .script, ⟨"0", 0⟩, .epoch⟩
    let stored : List (Location × Entry) := [(["d"], .directory), (["c"], .directory),
      ([Cache.recordName key, "c"], .file (Utf8.ofString record.text))]
    let w : World := { disk := ⟨(["a.js", "d"], .file [0x78]) :: stored⟩, cwd := ["d"] }
    let gone : World := { disk := ⟨stored⟩, cwd := ["d"] }
    let words (path : Path) := ["--cache-dir", "/c", "cache", "remove", path]
    (∀ path ∈ ["a.js", "./a.js"], w.disk.locate w.cwd path = .ok (["a.js", "d"], .file [0x78])) ∧
      (gone.run (run ⟨[]⟩ (words "a.js"))).1 = 0 ∧
      Cache.recordIn ⟨"/c"⟩ (gone.run (run ⟨[]⟩ (words "a.js"))).2 key = none ∧
      Cache.recordIn ⟨"/c"⟩ (gone.run (run ⟨[]⟩ (words "./a.js"))).2 key = some record := by
  intro key record stored w gone words
  have hfile : ∀ path ∈ ["a.js", "./a.js"], w.disk.locate w.cwd path = .ok (["a.js", "d"], .file [0x78]) := by
    decide +kernel
  have hdisk : gone.disk = w.disk.erase ["a.js", "d"] := by
    have hstored : stored = w.disk.entries.filter (·.1 ≠ ["a.js", "d"]) := by decide +kernel
    exact congrArg Disk.mk hstored
  let line (path : Path) : CommandLine := ⟨0, none, some "/c", .cacheRemove path⟩
  have hline : ∀ path ∈ ["a.js", "./a.js"], CommandLine.read ⟨[]⟩ (words path) = .ok (line path) := by
    decide +kernel
  have hload : ∀ path ∈ ["a.js", "./a.js"],
      (gone.act (Settings.load (settingsPath ⟨[]⟩ (line path)))).1 = .ok {} := by
    decide +kernel
  have hkey : Location.path ["a.js", "d"] = key := by decide +kernel
  have hcache (path : Path) : (contextOf ⟨[]⟩ (line path) {}).cache = ⟨"/c"⟩ := rfl
  have hready : Cache.isReady ⟨"/c"⟩ gone = true := by decide +kernel
  have hrecord : Cache.recordIn ⟨"/c"⟩ gone key = some record := by decide +kernel
  have hplain : w.cwd.path.join "a.js" = key := by decide +kernel
  have hdot : w.cwd.path.join "./a.js" = "/d/./a.js" := by decide +kernel
  have hstem : Cache.stem key ≠ Cache.stem "/d/./a.js" := by decide +kernel
  have hremove (path : Path) (hpath : path ∈ ["a.js", "./a.js"]) :=
    exit_of_cache_remove_gone ⟨[]⟩ (words path) (line path) path w gone {} ["a.js", "d"] [0x78] record
      (hline path hpath) rfl (hfile path hpath) hdisk rfl (hload path hpath)
  rw [hkey] at hremove
  simp only [hcache] at hremove
  have hfirst := (hremove "a.js" (by decide) hready hrecord (hplain ▸ fun _ => rfl)).2.1 hplain
  have hsecond := (hremove "./a.js" (by decide) hready hrecord (hdot ▸ fun h => absurd h hstem)).2.2
    (hdot ▸ by decide)
  exact ⟨hfile, hfirst.1, hfirst.2, hsecond⟩

/-- Not every spelling of the path of a file that is gone removes its record. -/
theorem cache_remove_not_removing : ¬ ∀ path : Path,
    let record : Record := ⟨Record.currentVersion, "/a.js", .script, ⟨"0", 0⟩, .epoch⟩
    let stored : List (Location × Entry) := [(["c"], .directory),
      ([Cache.recordName "/a.js", "c"], .file (Utf8.ofString record.text))]
    let w : World := { disk := ⟨(["a.js"], .file [0x78]) :: stored⟩ }
    let gone : World := { disk := ⟨stored⟩ }
    let after := (gone.run (run ⟨[]⟩ ["--cache-dir", "/c", "cache", "remove", path])).2
    w.disk.canonical w.cwd path = .ok "/a.js" → Cache.recordIn ⟨"/c"⟩ after "/a.js" = none := by
  intro h
  have hgone := h "./a.js" (by decide +kernel)
  revert hgone
  decide +kernel

end Console
end ParseGoal
