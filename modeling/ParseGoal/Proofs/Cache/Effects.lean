import ParseGoal.Proofs.Cache.Keeping

/-! What each operation answers, and what it leaves, where nothing fails. -/
namespace ParseGoal.Cache

variable {c : Cache} {w : World} {home : Location} {records : List Record} {record : Record}
  {key : String}

/-! Storing a record. -/

/-- A record that is stored in the directory, which is made if it is missing, is there beside the others. -/
theorem keeps_of_store (hready : c.isReady w = true) (h : Keeps c { w with disk := c.made w } home records)
    (hnodup : (w.disk.names home).Nodup) {goal : Goal} {fingerprint : Fingerprint}
    (hserves : w.serves (c.store key goal fingerprint).run = true) :
    let record : Record := ⟨Record.currentVersion, key, goal, fingerprint, w.instant⟩
    (w.act (c.store key goal fingerprint)).1 = .ok record ∧
      Keeps c (w.act (c.store key goal fingerprint)).2 home (record :: others key records) := by
  intro record
  obtain ⟨hanswer, hplaced⟩ := placed_of_serves hready hserves (rfl : record = _)
  have hcwd := (Course.of_serves hserves).cwd_eq
  refine ⟨hanswer, h.of_placed hplaced hcwd ?_ rfl⟩
  exact World.run_induction (P := fun disk => (disk.names home).Nodup)
    (fun _ place entry h => Disk.nodup_names_put h place entry)
    (fun _ place h => Disk.nodup_names_erase h place) hnodup _

theorem Keeps.act_store (h : Keeps c w home records) {goal : Goal} {fingerprint : Fingerprint}
    (hserves : w.serves (c.store key goal fingerprint).run = true) :
    let record : Record := ⟨Record.currentVersion, key, goal, fingerprint, w.instant⟩
    (w.act (c.store key goal fingerprint)).1 = .ok record ∧
      Keeps c (w.act (c.store key goal fingerprint)).2 home (record :: others key records) :=
  keeps_of_store h.isReady (h.congr (Disk.makeDirectories_of_directory h.directory) rfl) h.nodup hserves

/-! Removing a record. -/

theorem act_remove_ok {disk : Disk} (h : w.disk.remove w.cwd (c.recordPath key) = (.ok (), disk)) :
    w.act (c.remove key) = (.ok true, { w with disk := disk }) := by
  have hanswer : w.perform (.removeFile (c.recordPath key)) = (.ok (), { w with disk := disk }) := by
    rw [World.perform, World.withDisk, h]
  rw [remove, removeFile, World.act_ask _ hanswer]
  rfl

/-- Where a removal that does not fail removes nothing, there is nothing. -/
theorem act_remove_error {refusal : Refusal} {disk : Disk}
    (h : w.disk.remove w.cwd (c.recordPath key) = (.error refusal, disk))
    (hserves : w.serves (c.remove key).run = true) : w.act (c.remove key) = (.ok false, w) := by
  obtain rfl := Disk.remove_error h
  have hanswer : w.perform (.removeFile (c.recordPath key)) = (.error refusal, w) := by
    rw [World.perform, World.withDisk, h]
  have hmissing := World.isFailure_of_serves hserves
  rw [hanswer] at hmissing
  obtain rfl : refusal = .missing := by simpa [Request.isFailure] using hmissing
  rw [remove, removeFile, World.act_ask _ hanswer]
  rfl

namespace Keeps

variable (h : Keeps c w home records)

include h

theorem disk_remove (hr : record ∈ records) : w.disk.remove w.cwd (c.recordPath record.key) =
    (.ok (), w.disk.erase (recordName record.key :: home)) := by
  have hentry := (h.entries _ _).2 ⟨record, hr, rfl, rfl⟩
  have hfind := (Disk.find_join_iff (isName_recordName record.key) (h.hasNoLink _) false).2
    ⟨h.askable record hr, home, h.directory, (Disk.spotIn_eq_taken.2 ⟨rfl, hentry⟩).symm⟩
  rw [Disk.remove, recordPath, ← recordName, hfind]

theorem act_remove (hserves : w.serves (c.remove key).run = true) :
    (w.act (c.remove key)).1 = .ok (records.any fun r => stem r.key = stem key) ∧
      Keeps c (w.act (c.remove key)).2 home (others key records) := by
  by_cases hfound : ∃ r ∈ records, stem r.key = stem key
  · obtain ⟨r, hr, hstem⟩ := hfound
    have hremove := h.disk_remove hr
    rw [recordPath, recordName, hstem, ← recordPath, ← recordName] at hremove
    rw [act_remove_ok hremove, List.any_eq_true.2 ⟨r, hr, decide_eq_true hstem⟩]
    exact ⟨rfl, h.erase rfl rfl⟩
  · have hothers : others key records = records :=
      List.filter_eq_self.2 fun r hr => decide_eq_true fun hstem => hfound ⟨r, hr, hstem⟩
    have hnone : (records.any fun r => stem r.key = stem key) = false :=
      List.any_eq_false.2 fun r hr hstem => hfound ⟨r, hr, of_decide_eq_true hstem⟩
    rcases hremove : w.disk.remove w.cwd (c.recordPath key) with ⟨answer, disk⟩
    cases answer with
    | ok _ =>
      obtain ⟨place, entry, hfind, -, -⟩ := Disk.remove_ok hremove
      obtain ⟨there, rfl, hthere, hentry⟩ := Disk.taken_join (isName_recordName key) (h.hasNoLink _) hfind
      rw [h.directory] at hthere
      cases hthere
      obtain ⟨r, hr, hname, -⟩ := (h.entries _ _).1 hentry
      exact absurd ⟨r, hr, (stem_eq_of_recordName hname).symm⟩ hfound
    | error refusal =>
      rw [act_remove_error hremove hserves, hnone, hothers]
      exact ⟨rfl, h⟩

end Keeps

/-! The names in the directory. -/

theorem act_names_ok {names : List String} (h : w.disk.list w.cwd c.directory = .ok names) :
    w.act c.names = (.ok names, w) := by
  have hanswer : w.perform (.listDirectory c.directory) = (.ok names, w) := by rw [World.perform, h]
  rw [Cache.names, World.act_ask _ hanswer]
  rfl

theorem act_names_error {refusal : Refusal} (h : w.disk.list w.cwd c.directory = .error refusal)
    (hserves : w.serves c.names.run = true) : refusal = .missing ∧ w.act c.names = (.ok [], w) := by
  have hanswer : w.perform (.listDirectory c.directory) = (.error refusal, w) := by rw [World.perform, h]
  have hmissing := World.isFailure_of_serves hserves
  rw [hanswer] at hmissing
  obtain rfl : refusal = .missing := by simpa [Request.isFailure] using hmissing
  rw [Cache.names, World.act_ask _ hanswer]
  exact ⟨rfl, rfl⟩

namespace Keeps

variable (h : Keeps c w home records)

include h

theorem act_names (hpath : c.directory.isEmpty = false) (hserves : w.serves c.names.run = true) :
    w.act c.names = (.ok (w.disk.names home), w) := by
  rcases Disk.list_of_directory h.directory hpath with hlist | hinvalid | hlong
  · exact act_names_ok hlist
  · cases (act_names_error hinvalid hserves).1
  · cases (act_names_error hlong hserves).1

theorem nodup_records : records.Nodup := h.apart.imp fun hne heq => hne (by rw [heq])

/-- The records are one of them and the others. -/
theorem perm_others (hr : record ∈ records) : records.Perm (record :: others record.key records) := by
  refine (List.perm_ext_iff_of_nodup h.nodup_records ?_).2 fun s => ?_
  · exact List.nodup_cons.2 ⟨fun hmem => (mem_others.1 hmem).2 rfl, h.nodup_records.filter _⟩
  · rw [List.mem_cons, mem_others]
    constructor
    · intro hs
      by_cases hstem : stem s.key = stem record.key
      · exact .inl (h.eq_of_stem hs hr hstem)
      · exact .inr ⟨hs, hstem⟩
    · rintro (rfl | ⟨hs, -⟩)
      · exact hr
      · exact hs

/-- Clearing takes out one record after another. -/
theorem act_clearEach {names : List String} (hnames : names.Perm (records.map fun r => recordName r.key)) :
    (w.act (c.clearEach names)).1 = .ok records.length ∧
      Keeps c (w.act (c.clearEach names)).2 home [] := by
  induction names generalizing w records with
  | nil =>
    obtain rfl : records = [] := by simpa using hnames.symm
    exact ⟨rfl, h⟩
  | cons name rest ih =>
    obtain ⟨r, hr, rfl⟩ := List.mem_map.1 (hnames.subset List.mem_cons_self)
    have hperm := h.perm_others hr
    have hrest : rest.Perm ((others r.key records).map fun r => recordName r.key) :=
      (hnames.trans (hperm.map _)).cons_inv
    let erased : World := { w with disk := w.disk.erase (recordName r.key :: home) }
    have hremoved (what : String) : w.act (Action.doing what
        (Program.request (.removeFile (c.directory.join (recordName r.key))))) = (.ok (), erased) := by
      have hdisk : w.disk.remove w.cwd (c.directory.join (recordName r.key)) = _ := h.disk_remove hr
      rw [Action.doing, World.act_orFail, World.run_request, World.perform, World.withDisk, hdisk]
      rfl
    obtain ⟨hcount, hkeeps⟩ := ih (w := erased) (h.erase rfl rfl) hrest
    rw [hperm.length_eq, List.length_cons, clearEach, extension?_recordName, if_pos (.inl rfl),
      World.act_bind_ok _ _ (hremoved _), World.act_bind_ok _ _ (Prod.ext hcount rfl), if_pos rfl]
    exact ⟨rfl, hkeeps⟩

theorem act_clear (hpath : c.directory.isEmpty = false) (hserves : w.serves c.clear.run = true) :
    (w.act c.clear).1 = .ok records.length ∧ Keeps c (w.act c.clear).2 home [] := by
  rw [clear, World.act_bind_ok _ _ (h.act_names hpath (World.serves_of_bind hserves))]
  exact h.act_clearEach h.names_perm

/-- Of each name, the record is read. -/
theorem run_readEach {names : List String}
    (hnames : ∀ name ∈ names, ∃ r ∈ records, name = recordName r.key) :
    ∃ found, w.run (c.readEach names) = (found, w) ∧ found.map (fun r => recordName r.key) = names ∧
      found ⊆ records := by
  induction names with
  | nil => exact ⟨[], rfl, rfl, List.nil_subset _⟩
  | cons name rest ih =>
    obtain ⟨found, hrun, hmap, hsub⟩ := ih fun name hname => hnames name (List.mem_cons_of_mem _ hname)
    obtain ⟨r, hr, rfl⟩ := hnames name List.mem_cons_self
    refine ⟨r :: found, ?_, by rw [List.map_cons, hmap], List.cons_subset.2 ⟨hr, hsub⟩⟩
    have hread : w.disk.read w.cwd (c.directory.join (recordName r.key)) = .ok (Utf8.ofString r.text) :=
      (Disk.read_join_iff (isName_recordName r.key) (h.hasNoLink _)).2
        ⟨h.askable r hr, home, h.directory, (h.entries _ _).2 ⟨r, hr, rfl, rfl⟩⟩
    rw [readEach, extension?_recordName, if_pos rfl, World.run_bind, World.run_request, World.perform, hread]
    dsimp only
    rw [World.run_bind, hrun, World.run_pure]
    dsimp only [Except.toOption, Option.bind_some]
    rw [Record.ofBytes?_text, Option.filter_some, if_pos (decide_eq_true (h.current r hr))]
    rfl

/-- The list has each record once, and never an older one before a newer one. -/
theorem act_list (hpath : c.directory.isEmpty = false) (hserves : w.serves c.list.run = true) :
    ∃ found, w.act c.list = (.ok found, w) ∧ found.Perm records ∧
      found.Pairwise fun r s => s.storedAt.isUpTo r.storedAt = true := by
  have hnames : ∀ name ∈ w.disk.names home, ∃ r ∈ records, name = recordName r.key := by
    intro name hname
    obtain ⟨entry, hentry⟩ := Disk.mem_names_iff.1 hname
    obtain ⟨r, hr, hname, -⟩ := (h.entries _ _).1 hentry
    exact ⟨r, hr, hname⟩
  obtain ⟨found, hrun, hmap, hsub⟩ := h.run_readEach hnames
  have hnodup : found.Nodup := List.Nodup.of_map (fun r => recordName r.key) (hmap.symm ▸ h.nodup)
  have hperm : found.Perm records := by
    refine (List.perm_ext_iff_of_nodup hnodup h.nodup_records).2 fun r => ⟨@hsub r, fun hr => ?_⟩
    have hname : recordName r.key ∈ found.map fun r => recordName r.key := by
      rw [hmap, h.names_perm.mem_iff]
      exact List.mem_map_of_mem hr
    obtain ⟨s, hs, hname⟩ := List.mem_map.1 hname
    rwa [h.eq_of_stem hr (hsub hs) (stem_eq_of_recordName hname).symm]
  refine ⟨found.mergeSort isBefore, ?_, (List.mergeSort_perm ..).trans hperm, ?_⟩
  · rw [list, World.act_bind_ok _ _ (h.act_names hpath (World.serves_of_bind hserves)), World.act_bind,
      World.act_ofProgram, hrun]
    rfl
  · have htrans (r s t : Record) (hrs : isBefore r s = true) (hst : isBefore s t = true) :
        isBefore r t = true := Instant.isUpTo_trans hst hrs
    have htotal (r s : Record) : (isBefore r s || isBefore s r) = true :=
      Bool.or_eq_true_iff.2 (Instant.isUpTo_total ..)
    exact List.pairwise_mergeSort htrans htotal found

end Keeps
end ParseGoal.Cache
