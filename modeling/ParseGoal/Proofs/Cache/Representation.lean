import ParseGoal.Proofs.Cache.Effects

/-!
The records of a cache, whether its directory is there or is made when the first one is stored, and what
each operation answers and makes of them.
-/
namespace ParseGoal.Cache

variable {c : Cache} {w w' : World} {home : Location} {records : List Record} {record : Record}
  {key : String}

/-- Whether the directory of a cache has nothing in it, once it is made if it is missing. -/
def isVacant (c : Cache) (w : World) : Bool :=
  ((c.made w).directory? w.cwd c.directory).all fun home => ((c.made w).names home).isEmpty

/-- Where nothing is yet, the directory that is made holds no records. -/
theorem keeps_of_isVacant (h : c.isVacant w = true)
    (hhome : (c.made w).directory? w.cwd c.directory = some home) :
    Keeps c { w with disk := c.made w } home [] := by
  rw [isVacant, hhome] at h
  have hnames : (c.made w).names home = [] := List.isEmpty_iff.1 h
  refine ⟨hhome, hnames ▸ List.nodup_nil, fun name entry => ⟨fun hentry => ?_, ?_⟩, .nil,
    List.forall_mem_nil _, List.forall_mem_nil _⟩
  · have hmem := Disk.mem_names hentry
    rw [hnames] at hmem
    cases hmem
  · rintro ⟨r, hr, -⟩
    cases hr

theorem isReady_of_isVacant (h : c.isVacant w = true) : c.isReady w = true := by
  cases hhome : w.disk.directory? w.cwd c.directory with
  | some home =>
    have hmade : c.made w = w.disk := Disk.makeDirectories_of_directory hhome
    exact ((keeps_of_isVacant h (hmade.symm ▸ hhome)).congr hmade.symm rfl).isReady
  | none =>
    rw [isReady, hhome]
    rw [isVacant] at h
    cases hmade : (c.made w).directory? w.cwd c.directory with
    | none => rfl
    | some home =>
      rw [hmade] at h
      exact List.all_eq_true.2 fun name hname => by
        rw [List.isEmpty_iff.1 h] at hname
        cases hname

theorem act_names_of_no_directory (hhome : w.disk.directory? w.cwd c.directory = none)
    (hserves : w.serves c.names.run = true) : w.act c.names = (.ok [], w) := by
  cases hlist : w.disk.list w.cwd c.directory with
  | ok names => exact absurd hlist (Disk.list_of_no_directory hhome names)
  | error refusal => exact (act_names_error hlist hserves).2

theorem act_list_of_no_names (h : w.act c.names = (.ok [], w)) : w.act c.list = (.ok [], w) := by
  rw [list, World.act_bind_ok _ _ h]
  exact congrArg (fun found => (Except.ok found, w)) (List.mergeSort_nil ..)

/-- A cache has these records and no other files, or no directory as long as it has no record. -/
inductive Represents (c : Cache) (w : World) : List Record → Prop
  | vacant (hhome : w.disk.directory? w.cwd c.directory = none) (hvacant : c.isVacant w = true) :
      Represents c w []
  | kept {home : Location} {records : List Record} (h : Keeps c w home records) : Represents c w records

theorem isVacant_congr (hdisk : w'.disk = w.disk) (hcwd : w'.cwd = w.cwd) : c.isVacant w' = c.isVacant w := by
  rw [isVacant, isVacant, made, made, hdisk, hcwd]

namespace Represents

theorem of_isVacant (h : c.isVacant w = true) : Represents c w [] := by
  cases hhome : w.disk.directory? w.cwd c.directory with
  | none => exact .vacant hhome h
  | some home =>
    have hmade : c.made w = w.disk := Disk.makeDirectories_of_directory hhome
    exact .kept ((keeps_of_isVacant h (hmade.symm ▸ hhome)).congr hmade.symm rfl)

theorem congr (h : Represents c w records) (hdisk : w'.disk = w.disk) (hcwd : w'.cwd = w.cwd) :
    Represents c w' records := by
  cases h with
  | vacant hhome hvacant =>
    refine .vacant ?_ ((isVacant_congr hdisk hcwd).trans hvacant)
    rw [hdisk, hcwd, hhome]
  | kept h => exact .kept (h.congr hdisk hcwd)

theorem nodup_keys (h : Represents c w records) : (records.map Record.key).Nodup := by
  cases h with
  | vacant => exact List.nodup_nil
  | kept h => exact List.pairwise_map.2 (h.apart.imp fun hne heq => hne (congrArg stem heq))

theorem recordIn_iff (h : Represents c w records) :
    c.recordIn w key = some record ↔ record ∈ records ∧ record.key = key := by
  cases h with
  | vacant hhome =>
    rw [recordIn_of_no_directory hhome]
    exact ⟨nofun, nofun⟩
  | kept h => exact h.recordIn_iff

theorem act_store (h : Represents c w records) {goal : Goal} {fingerprint : Fingerprint}
    (hserves : w.serves (c.store key goal fingerprint).run = true) :
    let record : Record := ⟨Record.currentVersion, key, goal, fingerprint, w.instant⟩
    (w.act (c.store key goal fingerprint)).1 = .ok record ∧
      Represents c (w.act (c.store key goal fingerprint)).2 (record :: others key records) := by
  cases h with
  | vacant hhome hvacant =>
    have hready := isReady_of_isVacant hvacant
    obtain ⟨home, hmade, -⟩ := (placed_of_serves hready hserves rfl).2.place
    have hkeeps := keeps_of_isVacant hvacant hmade
    have hgrows : w.disk.Grows (c.made w) := Disk.grows_makeDirectories
    have hnames : w.disk.names home = [] := List.eq_nil_iff_forall_not_mem.2 fun name hname => by
      obtain ⟨entry, hentry⟩ := Disk.mem_names_iff.1 hname
      obtain ⟨r, hr, -⟩ := (hkeeps.entries _ _).1 (Disk.entry?_of_grows hgrows hentry)
      cases hr
    have hnodup : (w.disk.names home).Nodup := hnames ▸ List.nodup_nil
    exact (keeps_of_store hready hkeeps hnodup hserves).imp_right .kept
  | kept h => exact (h.act_store hserves).imp_right .kept

theorem act_remove (h : Represents c w records) (hserves : w.serves (c.remove key).run = true) :
    (w.act (c.remove key)).1 = .ok (records.any fun r => stem r.key = stem key) ∧
      Represents c (w.act (c.remove key)).2 (others key records) := by
  cases h with
  | vacant hhome hvacant =>
    rcases hremove : w.disk.remove w.cwd (c.recordPath key) with ⟨answer, disk⟩
    cases answer with
    | ok _ =>
      have hlink := hasNoLink_of_isReady (isReady_of_isVacant hvacant) (recordName key)
      obtain ⟨place, entry, hfind, -, -⟩ := Disk.remove_ok hremove
      obtain ⟨there, -, hthere, -⟩ := Disk.taken_join (isName_recordName key) hlink hfind
      rw [hhome] at hthere
      cases hthere
    | error refusal =>
      rw [act_remove_error hremove hserves]
      exact ⟨rfl, .vacant hhome hvacant⟩
  | kept h => exact (h.act_remove hserves).imp_right .kept

theorem act_clear (h : Represents c w records) (hpath : c.directory.isEmpty = false)
    (hserves : w.serves c.clear.run = true) :
    (w.act c.clear).1 = .ok records.length ∧ Represents c (w.act c.clear).2 [] := by
  cases h with
  | vacant hhome hvacant =>
    rw [clear, World.act_bind_ok _ _ (act_names_of_no_directory hhome (World.serves_of_bind hserves))]
    exact ⟨rfl, .vacant hhome hvacant⟩
  | kept h => exact (h.act_clear hpath hserves).imp_right .kept

theorem act_list (h : Represents c w records) (hpath : c.directory.isEmpty = false)
    (hserves : w.serves c.list.run = true) : ∃ found, w.act c.list = (.ok found, w) ∧ found.Perm records ∧
      found.Pairwise fun r s => s.storedAt.isUpTo r.storedAt = true := by
  cases h with
  | vacant hhome hvacant =>
    have hnames := act_names_of_no_directory hhome (World.serves_of_bind hserves)
    exact ⟨[], act_list_of_no_names hnames, .refl _, .nil⟩
  | kept h => exact h.act_list hpath hserves

/-- What is in the directory is the files of the records. -/
theorem names_perm (h : Represents c w records) (hhome : w.disk.directory? w.cwd c.directory = some home) :
    (w.disk.names home).Perm (records.map fun r => recordName r.key) ∧
      ∀ name ∈ w.disk.names home, Path.extension? name = some "json" ∧
        ∃ content, w.disk.entry? (name :: home) = some (.file content) := by
  cases h with
  | vacant hnone =>
    rw [hnone] at hhome
    cases hhome
  | kept h =>
    rw [h.directory] at hhome
    cases hhome
    refine ⟨h.names_perm, fun name hname => ?_⟩
    obtain ⟨entry, hentry⟩ := Disk.mem_names_iff.1 hname
    obtain ⟨r, -, rfl, rfl⟩ := (h.entries _ _).1 hentry
    exact ⟨extension?_recordName r.key, _, hentry⟩

theorem eq_nil (h : Represents c w records) (hhome : w.disk.directory? w.cwd c.directory = none) :
    records = [] := by
  cases h with
  | vacant => rfl
  | kept h =>
    rw [h.directory] at hhome
    cases hhome

end Represents
end ParseGoal.Cache
