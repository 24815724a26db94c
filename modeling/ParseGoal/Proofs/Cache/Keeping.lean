import ParseGoal.Proofs.Cache.Phases
import ParseGoal.Proofs.Calendar.Instant
import ParseGoal.Proofs.Disk.Names

/-!
A directory that holds some records and nothing else: what storing, removing, clearing and listing tell
about it, and what they make of it.
-/
namespace ParseGoal.Cache

theorem stem_ne_nil (key : String) : (stem key).toList ≠ [] := by
  rw [stem, Sha256.hex, String.toList_ofList]
  exact List.cons_ne_nil _ _

theorem extension?_recordName (key : String) : Path.extension? (recordName key) = some "json" := by
  have hname : (recordName key).toList = (stem key).toList ++ '.' :: ['j', 's', 'o', 'n'] := by
    rw [toList_recordName]
    simp
  exact Path.extension?_eq hname (isName_recordName key).slashless (stem_ne_nil key) (List.cons_ne_nil _ _)
    (by decide)

theorem stem_eq_of_recordName {key other : String} (h : recordName other = recordName key) :
    stem other = stem key := by
  by_contra hne
  exact recordName_ne hne h

/-- The directory `home` of a cache holds these records, each in its file, and nothing else. -/
structure Keeps (c : Cache) (w : World) (home : Location) (records : List Record) : Prop where
  directory : w.disk.directory? w.cwd c.directory = some home
  nodup : (w.disk.names home).Nodup
  entries : ∀ name entry, w.disk.entry? (name :: home) = some entry ↔
    ∃ r ∈ records, name = recordName r.key ∧ entry = .file (Utf8.ofString r.text)
  apart : records.Pairwise fun r s => stem r.key ≠ stem s.key
  current : ∀ r ∈ records, r.version = Record.currentVersion
  askable : ∀ r ∈ records, Disk.Askable (c.recordPath r.key) (recordName r.key)

variable {c : Cache} {w w' : World} {home : Location} {records : List Record} {record : Record}
  {key : String}

/-- The records that stay when one takes the place of a key's record, or none does. -/
def others (key : String) (records : List Record) : List Record :=
  records.filter fun r => stem r.key ≠ stem key

theorem mem_others : record ∈ others key records ↔ record ∈ records ∧ stem record.key ≠ stem key := by
  simp [others]

/-- No name but that of the key tells the others from all records. -/
theorem exists_mem_others {name : String} {P : Record → Prop} :
    (∃ r ∈ others key records, name = recordName r.key ∧ P r) ↔
      name ≠ recordName key ∧ ∃ r ∈ records, name = recordName r.key ∧ P r := by
  constructor
  · rintro ⟨r, hr, rfl, hP⟩
    exact ⟨fun heq => (mem_others.1 hr).2 (stem_eq_of_recordName heq), r, (mem_others.1 hr).1, rfl, hP⟩
  · rintro ⟨hname, r, hr, rfl, hP⟩
    refine ⟨r, mem_others.2 ⟨hr, fun hstem => hname ?_⟩, rfl, hP⟩
    rw [recordName, hstem, ← recordName]

namespace Keeps

theorem eq_of_stem (h : Keeps c w home records) {r s : Record} (hr : r ∈ records) (hs : s ∈ records)
    (hstem : stem r.key = stem s.key) : r = s :=
  List.inj_on_of_nodup_map (List.pairwise_map.2 h.apart) hr hs hstem

theorem way?_eq_none (h : Keeps c w home records) (name : String) :
    w.disk.way? (name :: home) = none := by
  refine Disk.way?_eq_none (fun hentry => ?_) fun target hentry => ?_ <;>
  · obtain ⟨r, -, -, hfile⟩ := (h.entries _ _).1 hentry
    cases hfile

theorem hasNoLink (h : Keeps c w home records) (name : String) :
    w.disk.HasNoLink w.cwd c.directory name := by
  intro place hplace target hentry
  rw [h.directory] at hplace
  cases hplace
  obtain ⟨r, -, -, hfile⟩ := (h.entries _ _).1 hentry
  cases hfile

theorem isReady (h : Keeps c w home records) : c.isReady w = true :=
  isReady_of_hasNoLink h.directory h.hasNoLink

theorem congr (h : Keeps c w home records) (hdisk : w'.disk = w.disk) (hcwd : w'.cwd = w.cwd) :
    Keeps c w' home records := by
  obtain ⟨hdirectory, hnodup, hentries, hapart, hcurrent, haskable⟩ := h
  rw [← hdisk, ← hcwd] at hdirectory
  rw [← hdisk] at hnodup hentries
  exact ⟨hdirectory, hnodup, hentries, hapart, hcurrent, haskable⟩

/-- What can be looked up is what is held. -/
theorem recordIn_iff (h : Keeps c w home records) :
    c.recordIn w key = some record ↔ record ∈ records ∧ record.key = key := by
  rw [recordIn_eq_some]
  constructor
  · rintro ⟨bytes, hread, hrecord, -, hkey⟩
    obtain ⟨-, place, hplace, hentry⟩ :=
      (Disk.read_join_iff (isName_recordName key) (h.hasNoLink _)).1 hread
    rw [h.directory] at hplace
    cases hplace
    obtain ⟨r, hr, -, hfile⟩ := (h.entries _ _).1 hentry
    rw [Entry.file.inj hfile, Record.ofBytes?_text] at hrecord
    obtain rfl := Option.some.inj hrecord
    exact ⟨hr, hkey⟩
  · rintro ⟨hr, rfl⟩
    refine ⟨Utf8.ofString record.text, ?_, Record.ofBytes?_text record, h.current record hr, rfl⟩
    refine (Disk.read_join_iff (isName_recordName record.key) (h.hasNoLink _)).2 ?_
    exact ⟨h.askable record hr, home, h.directory, (h.entries _ _).2 ⟨record, hr, rfl, rfl⟩⟩

/-- The names of the directory are those of the records. -/
theorem names_perm (h : Keeps c w home records) :
    (w.disk.names home).Perm (records.map fun r => recordName r.key) := by
  have hnodup : (records.map fun r => recordName r.key).Nodup :=
    List.pairwise_map.2 (h.apart.imp fun hne heq => hne (stem_eq_of_recordName heq))
  refine (List.perm_ext_iff_of_nodup h.nodup hnodup).2 fun name => ?_
  rw [Disk.mem_names_iff, List.mem_map]
  constructor
  · rintro ⟨entry, hentry⟩
    obtain ⟨r, hr, rfl, -⟩ := (h.entries _ _).1 hentry
    exact ⟨r, hr, rfl⟩
  · rintro ⟨r, hr, rfl⟩
    exact ⟨_, (h.entries _ _).2 ⟨r, hr, rfl, rfl⟩⟩

/-- Without the file of a key's record, the others are still there. -/
theorem erase (h : Keeps c w home records) (hdisk : w'.disk = w.disk.erase (recordName key :: home))
    (hcwd : w'.cwd = w.cwd) : Keeps c w' home (others key records) where
  directory := by
    rw [hdisk, hcwd, Disk.directory?_congr (Disk.sameWays_erase (h.way?_eq_none _)), h.directory]
  nodup := by
    rw [hdisk]
    exact Disk.nodup_names_erase h.nodup _
  entries name entry := by
    rw [hdisk, Disk.entry?_erase, exists_mem_others, ← h.entries]
    by_cases hname : name = recordName key
    · rw [if_pos (by rw [hname])]
      exact ⟨nofun, fun h => absurd hname h.1⟩
    · rw [if_neg fun heq => hname (List.cons.inj heq).1]
      exact ⟨fun h => ⟨hname, h⟩, And.right⟩
  apart := h.apart.filter _
  current r hr := h.current r (mem_others.1 hr).1
  askable r hr := h.askable r (mem_others.1 hr).1

/-- A record that was put in its place, beside the others. -/
theorem of_placed (h : Keeps c { w with disk := c.made w } home records) {word : String}
    (hplaced : Placed c w record (draftName record.key word) w'.disk) (hcwd : w'.cwd = w.cwd)
    (hnodup : (w'.disk.names home).Nodup) (hversion : record.version = Record.currentVersion) :
    Keeps c w' home (record :: others record.key records) where
  directory := by
    rw [hcwd, Disk.directory?_congr hplaced.sameWays]
    exact h.directory
  nodup := hnodup
  entries name entry := by
    obtain ⟨there, hthere, -, -, hentry⟩ := hplaced.place
    rw [h.directory] at hthere
    cases hthere
    have hplace (other : String) : name :: home = other :: home ↔ name = other :=
      ⟨fun heq => (List.cons.inj heq).1, fun heq => heq ▸ rfl⟩
    rw [hentry, List.exists_mem_cons_iff, exists_mem_others, ← h.entries]
    simp only [hplace]
    by_cases hrecord : name = recordName record.key
    · rw [if_pos hrecord]
      constructor
      · rintro ⟨⟩
        exact .inl ⟨hrecord, rfl⟩
      · rintro (⟨-, rfl⟩ | ⟨hname, -⟩)
        · rfl
        · exact absurd hrecord hname
    rw [if_neg hrecord]
    by_cases hdraft : name = draftName record.key word
    · rw [if_pos hdraft]
      refine ⟨nofun, ?_⟩
      rintro (⟨hname, -⟩ | ⟨-, hmade⟩)
      · exact absurd hname hrecord
      · obtain ⟨r, -, hname, -⟩ := (h.entries _ _).1 hmade
        exact absurd (hname.symm.trans hdraft) (recordName_ne_draftName r.key record.key word)
    · rw [if_neg hdraft]
      exact ⟨fun h => .inr ⟨hrecord, h⟩, fun h => (h.resolve_left fun heq => hrecord heq.1).2⟩
  apart := List.pairwise_cons.2 ⟨fun r hr => Ne.symm (mem_others.1 hr).2, h.apart.filter _⟩
  current r hr := by
    rcases List.mem_cons.1 hr with rfl | hr
    · exact hversion
    · exact h.current r (mem_others.1 hr).1
  askable r hr := by
    rcases List.mem_cons.1 hr with rfl | hr
    · exact hplaced.askable
    · exact h.askable r (mem_others.1 hr).1

end Keeps
end ParseGoal.Cache
