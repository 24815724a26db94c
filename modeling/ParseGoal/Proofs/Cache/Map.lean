import Mathlib.Data.List.Dedup
import ParseGoal.Proofs.Cache.Representation

/-!
A cache is a finite map in a directory: whatever is stored, removed and cleared, it tells of each key what
was stored last, and has one file for each key of which it tells something.
-/
namespace ParseGoal.Cache

/-- What changes a cache. -/
inductive Operation
  | store (key : String) (goal : Goal) (fingerprint : Fingerprint)
  | remove (key : String)
  | clear

namespace Operation

/-- The key of an operation, unless it is about all. -/
def key? : Operation → Option String
  | .store key _ _ => some key
  | .remove key => some key
  | .clear => none

/-- What an operation answers with. -/
def Answer : Operation → Type
  | .store .. => Record
  | .remove _ => Bool
  | .clear => Nat

/-- What is done to a cache. -/
def action (c : Cache) : (op : Operation) → Action op.Answer
  | .store key goal fingerprint => c.store key goal fingerprint
  | .remove key => c.remove key
  | .clear => c.clear

end Operation

/--
What was stored last for a key, if it was neither removed nor cleared since, by operations of which the last
one comes first.
-/
def remembered (key : String) : List Operation → Option (Goal × Fingerprint)
  | [] => none
  | .store other goal fingerprint :: log =>
    if other = key then some (goal, fingerprint) else remembered key log
  | .remove other :: log => if other = key then none else remembered key log
  | .clear :: _ => none

/-- The keys that operations are about. -/
def used (log : List Operation) : List String := log.filterMap Operation.key?

/-- The keys of which something is remembered, each once. -/
def present (log : List Operation) : List String :=
  (used log).dedup.filter fun key => (remembered key log).isSome

/-- What is answered to an operation after others. -/
def expected (w : World) (log : List Operation) : (op : Operation) → op.Answer
  | .store key goal fingerprint => (⟨Record.currentVersion, key, goal, fingerprint, w.instant⟩ : Record)
  | .remove key => (remembered key log).isSome
  | .clear => (present log).length

/--
The worlds in which a cache can be after operations that do not fail, if nobody else writes to the disk:
between two of them, time passes, and another process may go on.
-/
inductive Reached (c : Cache) (start : World) : List Operation → World → Prop
  | start : Reached c start [] start
  | wait {log : List Operation} {w w' : World} (h : Reached c start log w) (hdisk : w'.disk = w.disk)
      (hcwd : w'.cwd = w.cwd) : Reached c start log w'
  | operate {log : List Operation} {w : World} (h : Reached c start log w) (op : Operation)
      (hserves : w.serves (op.action c).run = true) : Reached c start (op :: log) (w.act (op.action c)).2

variable {c : Cache} {w : World} {key : String} {log : List Operation} {op : Operation}
  {records : List Record}

theorem mem_used_of_remembered {value : Goal × Fingerprint} (h : remembered key log = some value) :
    key ∈ used log := by
  induction log with
  | nil => cases h
  | cons op log ih =>
    cases op with
    | store other goal fingerprint =>
      rw [remembered] at h
      split_ifs at h with hkey
      · exact List.mem_cons.2 (.inl hkey.symm)
      · exact List.mem_cons_of_mem _ (ih h)
    | remove other =>
      rw [remembered] at h
      split_ifs at h
      exact List.mem_cons_of_mem _ (ih h)
    | clear => cases h

theorem nodup_present (log : List Operation) : (present log).Nodup := (List.nodup_dedup _).filter _

theorem mem_present : key ∈ present log ↔ (remembered key log).isSome = true := by
  rw [present, List.mem_filter, List.mem_dedup]
  refine ⟨And.right, fun h => ⟨?_, h⟩⟩
  obtain ⟨value, hvalue⟩ := Option.isSome_iff_exists.1 h
  exact mem_used_of_remembered hvalue

/-- What an operation makes of the records. -/
def revise (instant : Instant) (records : List Record) : Operation → List Record
  | .store key goal fingerprint =>
    ⟨Record.currentVersion, key, goal, fingerprint, instant⟩ :: others key records
  | .remove key => others key records
  | .clear => []

/-- Records that hold what is remembered. -/
def Hold (records : List Record) (log : List Operation) : Prop := ∀ key value,
  remembered key log = some value ↔ ∃ r ∈ records, r.key = key ∧ (r.goal, r.fingerprint) = value

theorem hold_nil : Hold [] [] := fun key value => by simp [remembered]

theorem Hold.mem_used (h : Hold records log) {record : Record} (hr : record ∈ records) :
    record.key ∈ used log := mem_used_of_remembered ((h _ _).2 ⟨record, hr, rfl, rfl⟩)

/-- Without the record of a key, nothing is held of it, and of others what was held. -/
theorem Hold.others (h : Hold records log) (hapart : ∀ other ∈ used log, KeptApart key other)
    {other : String} {value : Goal × Fingerprint} :
    (∃ r ∈ others key records, r.key = other ∧ (r.goal, r.fingerprint) = value) ↔
      other ≠ key ∧ remembered other log = some value := by
  rw [h]
  constructor
  · rintro ⟨r, hr, rfl, hvalue⟩
    obtain ⟨hr, hstem⟩ := mem_others.1 hr
    exact ⟨fun heq => hstem (congrArg stem heq), r, hr, rfl, hvalue⟩
  · rintro ⟨hne, r, hr, rfl, hvalue⟩
    refine ⟨r, mem_others.2 ⟨hr, fun hstem => hne ?_⟩, rfl, hvalue⟩
    exact (hapart _ (h.mem_used hr) hstem.symm).symm

/-- What is held after an operation is what is remembered after it. -/
theorem Hold.revise (h : Hold records log) (instant : Instant)
    (hapart : ∀ key ∈ op.key?, ∀ other ∈ used log, KeptApart key other) :
    Hold (revise instant records op) (op :: log) := by
  intro other value
  cases op with
  | store key goal fingerprint =>
    rw [remembered, Cache.revise, List.exists_mem_cons_iff, h.others (hapart key rfl)]
    by_cases hkey : key = other
    · rw [if_pos hkey]
      simp [hkey]
    · rw [if_neg hkey]
      simp [hkey, Ne.symm hkey]
  | remove key =>
    rw [remembered, Cache.revise, h.others (hapart key rfl)]
    by_cases hkey : key = other
    · rw [if_pos hkey]
      simp [hkey]
    · rw [if_neg hkey]
      simp [Ne.symm hkey]
  | clear => simp [remembered, Cache.revise]

/-- The keys of the records are those of which something is remembered. -/
theorem Hold.present_perm (h : Hold records log) (hnodup : (records.map Record.key).Nodup) :
    (records.map Record.key).Perm (present log) := by
  refine (List.perm_ext_iff_of_nodup hnodup (nodup_present log)).2 fun key => ?_
  rw [mem_present, List.mem_map, Option.isSome_iff_exists]
  constructor
  · rintro ⟨r, hr, rfl⟩
    exact ⟨_, (h _ _).2 ⟨r, hr, rfl, rfl⟩⟩
  · rintro ⟨value, hvalue⟩
    obtain ⟨r, hr, hkey, -⟩ := (h _ _).1 hvalue
    exact ⟨r, hr, hkey⟩

/-- A record has the file of a key only if something is remembered of the key. -/
theorem Hold.any_eq (h : Hold records log) (hapart : ∀ other ∈ used log, KeptApart key other) :
    (records.any fun r => stem r.key = stem key) = (remembered key log).isSome := by
  rw [Bool.eq_iff_iff, List.any_eq_true, Option.isSome_iff_exists]
  constructor
  · rintro ⟨r, hr, hstem⟩
    have hkey : key = r.key := hapart _ (h.mem_used hr) (of_decide_eq_true hstem).symm
    exact ⟨_, (h _ _).2 ⟨r, hr, hkey.symm, rfl⟩⟩
  · rintro ⟨value, hvalue⟩
    obtain ⟨r, hr, rfl, -⟩ := (h _ _).1 hvalue
    exact ⟨r, hr, decide_eq_true rfl⟩

/-- One operation: what it answers, and the records after it. -/
theorem Represents.act (h : Represents c w records) (hhold : Hold records log)
    (hpath : c.directory.isEmpty = false) (hserves : w.serves (op.action c).run = true)
    (hapart : ∀ key ∈ op.key?, ∀ other ∈ used log, KeptApart key other) :
    (w.act (op.action c)).1 = .ok (expected w log op) ∧
      Represents c (w.act (op.action c)).2 (revise w.instant records op) := by
  cases op with
  | store key goal fingerprint => exact h.act_store hserves
  | remove key =>
    obtain ⟨hanswer, hafter⟩ := h.act_remove hserves
    refine ⟨hanswer.trans (congrArg Except.ok ?_), hafter⟩
    exact hhold.any_eq (hapart key rfl)
  | clear =>
    obtain ⟨hanswer, hafter⟩ := h.act_clear hpath hserves
    refine ⟨hanswer.trans (congrArg Except.ok ?_), hafter⟩
    exact (List.length_map _).symm.trans (hhold.present_perm h.nodup_keys).length_eq

/-- After every run of operations, the cache has records that hold what is remembered. -/
theorem Reached.represents {start : World} (h : Reached c start log w) (hpath : c.directory.isEmpty = false)
    (hvacant : c.isVacant start = true)
    (hapart : ∀ key ∈ used log, ∀ other ∈ used log, KeptApart key other) :
    ∃ records, Represents c w records ∧ Hold records log := by
  induction h with
  | start => exact ⟨[], .of_isVacant hvacant, hold_nil⟩
  | wait h hdisk hcwd ih =>
    obtain ⟨records, hrepresents, hhold⟩ := ih hapart
    exact ⟨records, hrepresents.congr hdisk hcwd, hhold⟩
  | @operate log w h op hserves ih =>
    have hsub : used log ⊆ used (op :: log) :=
      fun key hkey => ((List.sublist_cons_self op log).filterMap Operation.key?).subset hkey
    obtain ⟨records, hrepresents, hhold⟩ :=
      ih fun key hkey other hother => hapart key (hsub hkey) other (hsub hother)
    have hkeys : ∀ key ∈ op.key?, ∀ other ∈ used log, KeptApart key other :=
      fun key hkey other hother =>
        hapart key (List.mem_filterMap.2 ⟨op, List.mem_cons_self, hkey⟩) other (hsub hother)
    exact ⟨_, (hrepresents.act hhold hpath hserves hkeys).2, hhold.revise w.instant hkeys⟩

/-- The records hold of each key what is found for it. -/
theorem Hold.markIn_eq (hhold : Hold records log) (h : Represents c w records) (key : String) :
    c.markIn w key = remembered key log := by
  ext value
  rw [hhold, markIn, Option.map_eq_some_iff]
  simp only [h.recordIn_iff, and_assoc]

/--
What a cache tells, and what is in its directory, after operations on a cache that was empty: a lookup finds
what was stored last; the next operation answers as it should; the list has each record once, and never an
older one before a newer one; and the directory has one file for each key, and no draft.
-/
theorem reached_agrees {start : World} (hpath : c.directory.isEmpty = false)
    (hvacant : c.isVacant start = true) (h : Reached c start log w)
    (hapart : ∀ key ∈ used log, ∀ other ∈ used log, KeptApart key other) :
    (∀ key, c.markIn w key = remembered key log) ∧
    (∀ op : Operation, w.serves (op.action c).run = true →
      (∀ key ∈ op.key?, ∀ other ∈ used log, KeptApart key other) →
        (w.act (op.action c)).1 = .ok (expected w log op)) ∧
    (w.serves c.list.run = true → ∃ found, w.act c.list = (.ok found, w) ∧
      (found.map Record.key).Perm (present log) ∧ (∀ r ∈ found, c.recordIn w r.key = some r) ∧
        found.Pairwise fun r s => s.storedAt.isUpTo r.storedAt = true) ∧
    (∀ home, w.disk.directory? w.cwd c.directory = some home →
      (w.disk.names home).Perm ((present log).map recordName) ∧
      ∀ name ∈ w.disk.names home, Path.extension? name = some "json" ∧
        ∃ content, w.disk.entry? (name :: home) = some (.file content)) ∧
    (w.disk.directory? w.cwd c.directory = none → present log = []) := by
  obtain ⟨records, hrecords, hhold⟩ := h.represents hpath hvacant hapart
  have hpresent := hhold.present_perm hrecords.nodup_keys
  refine ⟨hhold.markIn_eq hrecords, ?_, fun hserves => ?_, fun home hhome => ?_, fun hhome => ?_⟩
  · exact fun op hserves hkeys => (hrecords.act hhold hpath hserves hkeys).1
  · obtain ⟨found, hlist, hperm, hsorted⟩ := hrecords.act_list hpath hserves
    refine ⟨found, hlist, (hperm.map _).trans hpresent, fun r hr => ?_, hsorted⟩
    exact hrecords.recordIn_iff.2 ⟨hperm.subset hr, rfl⟩
  · obtain ⟨hnames, hfiles⟩ := hrecords.names_perm hhome
    have hkeys := hpresent.map recordName
    rw [List.map_map] at hkeys
    exact ⟨hnames.trans hkeys, hfiles⟩
  · obtain rfl := hrecords.eq_nil hhome
    exact hpresent.nil_eq.symm

/-- A record that takes the place of another one: it is found, and the directory has one file. -/
theorem reached_agrees_of_replaced :
    let c : Cache := ⟨"/c"⟩
    let first : Operation := .store "k" .script ⟨"0", 0⟩
    let second : Operation := .store "k" .module ⟨"1", 1⟩
    ∃ start w, c.isVacant start = true ∧ Reached c start [second, first] w ∧
      (∀ key, c.markIn w key = if "k" = key then some (.module, ⟨"1", 1⟩) else none) ∧
      ∀ home, w.disk.directory? w.cwd c.directory = some home →
        (w.disk.names home).Perm [recordName "k"] := by
  intro c first second
  let start : World := { disk := Disk.empty }
  have hserves : c.isVacant start = true ∧ start.serves (first.action c).run = true ∧
      (start.act (first.action c)).2.serves (second.action c).run = true := by
    decide +kernel
  have hreached := (Reached.start.operate first hserves.2.1).operate second hserves.2.2
  have hapart : ∀ key ∈ used [second, first], ∀ other ∈ used [second, first], KeptApart key other := by
    simp [first, second, used, Operation.key?, KeptApart]
  have hpresent : present [second, first] = ["k"] := by decide
  obtain ⟨hlookup, -, -, hfiles, -⟩ := reached_agrees (by decide) hserves.1 hreached hapart
  refine ⟨start, _, hserves.1, hreached, fun key => ?_, fun home hhome => ?_⟩
  · rw [hlookup]
    simp only [first, second, remembered]
    split_ifs <;> rfl
  · rw [← List.map_singleton, ← hpresent]
    exact (hfiles home hhome).1

/-- Where the path is empty, nothing is ever listed. -/
theorem act_list_empty (w : World) :
    w.serves (Cache.list ⟨""⟩).run = true ∧ w.act (Cache.list ⟨""⟩) = (.ok [], w) :=
  ⟨rfl, act_list_of_no_names rfl⟩

/--
Two provisos that cannot be left out. A path that leads to records only by way of a directory that is made
shows a record that was never stored. And where the path is empty, a record is found, but never listed.
-/
theorem reached_provisos :
    (∃ (c : Cache) (start w : World), start.disk.directory? start.cwd c.directory = none ∧
      Reached c start [.store "j" .script ⟨"0", 0⟩] w ∧ (c.markIn w "k").isSome = true) ∧
    ∃ (c : Cache) (start w : World), c.isVacant start = true ∧
      Reached c start [.store "j" .script ⟨"0", 0⟩] w ∧ (c.markIn w "j").isSome = true ∧
        w.serves c.list.run = true ∧ w.act c.list = (.ok [], w) := by
  let op : Operation := .store "j" .script ⟨"0", 0⟩
  constructor
  · let c : Cache := ⟨"/n/../c"⟩
    let entry : Entry := .file (Utf8.ofString (Record.text ⟨1, "k", .script, ⟨"0", 0⟩, .epoch⟩))
    let start : World := { disk := (Disk.empty.put ["c"] .directory).put [recordName "k", "c"] entry }
    have h : start.disk.directory? start.cwd c.directory = none ∧ start.serves (op.action c).run = true ∧
        (c.markIn (start.act (op.action c)).2 "k").isSome = true := by decide +kernel
    exact ⟨c, start, _, h.1, Reached.start.operate op h.2.1, h.2.2⟩
  · let c : Cache := ⟨""⟩
    let start : World := { disk := Disk.empty }
    have hvacant : c.isVacant start = true := by decide +kernel
    have hserves : start.serves (op.action c).run = true := by decide +kernel
    have hstored := ((Represents.of_isVacant hvacant).act_store hserves).2
    refine ⟨c, start, _, hvacant, Reached.start.operate op hserves, ?_, act_list_empty _⟩
    rw [markIn, Option.isSome_map, Option.isSome_iff_exists]
    exact ⟨_, hstored.recordIn_iff.2 ⟨List.mem_cons_self, rfl⟩⟩

end ParseGoal.Cache
