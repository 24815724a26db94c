import Mathlib.Tactic.IntervalCases
import ParseGoal.Proofs.Cache.Lookup
import ParseGoal.Proofs.Cache.Record
import ParseGoal.Proofs.Disk.Operations

/-!
Storing and removing the record of a key: what is found for that key afterwards, and that nothing
else is found differently.
-/
namespace ParseGoal

namespace Cache

/-- The name of the file of a key's record. -/
def recordName (key : String) : String := stem key ++ ".json"

/-- The name of the file that a key's record is written to first. -/
def draftName (key word : String) : String := stem key ++ "." ++ word ++ ".tmp"

theorem hexDigit_ne_slash {n : Nat} (h : n < 16) : Text.hexDigit n ≠ '/' := by
  interval_cases n <;> decide

theorem slash_not_mem_stem (key : String) : '/' ∉ (stem key).toList := by
  rw [stem, Sha256.hex, String.toList_ofList]
  intro hmem
  obtain ⟨b, -, hb⟩ := List.mem_flatMap.1 hmem
  have hbyte := b.toNat_lt
  rcases List.mem_cons.1 hb with h | h
  · exact hexDigit_ne_slash (by omega) h.symm
  · exact hexDigit_ne_slash (by omega) (List.mem_singleton.1 h).symm

/-- A name that ends in a letter is neither empty nor made of dots. -/
theorem isName_of_last {name : String} {front : List Char} {c : Char}
    (h : name.toList = front ++ [c]) (hc : c ≠ '.') (hslash : '/' ∉ name.toList) :
    Path.IsName name := by
  have hlast : name.toList.getLast? = some c := by rw [h, List.getLast?_concat]
  refine ⟨?_, hslash, ?_, ?_⟩
  · rw [h]
    exact List.append_ne_nil_of_right_ne_nil _ (List.cons_ne_nil _ _)
  · rintro rfl
    exact hc (Option.some.inj hlast).symm
  · rintro rfl
    exact hc (Option.some.inj hlast).symm

theorem toList_recordName (key : String) :
    (recordName key).toList = (stem key).toList ++ ['.', 'j', 's', 'o'] ++ ['n'] := by
  rw [recordName, String.toList_append, List.append_assoc]
  rfl

theorem toList_draftName (key word : String) : (draftName key word).toList =
    (stem key).toList ++ '.' :: word.toList ++ ['.', 't', 'm'] ++ ['p'] := by
  simp [draftName]

theorem isName_recordName (key : String) : Path.IsName (recordName key) := by
  refine isName_of_last (toList_recordName key) (by decide) ?_
  rw [toList_recordName]
  simp [slash_not_mem_stem]

theorem isName_draftName (key : String) {word : String} (hword : '/' ∉ word.toList) :
    Path.IsName (draftName key word) := by
  refine isName_of_last (toList_draftName key word) (by decide) ?_
  rw [toList_draftName]
  simp [slash_not_mem_stem, hword]

theorem recordName_ne_draftName (key other word : String) : recordName key ≠ draftName other word := by
  intro h
  have hlast := congrArg (fun name => name.toList.getLast?) h
  simp only [toList_recordName, toList_draftName, List.getLast?_concat] at hlast
  exact absurd (Option.some.inj hlast) (by decide)

theorem recordName_ne {key other : String} (h : stem other ≠ stem key) :
    recordName other ≠ recordName key := by
  intro heq
  have hlist := congrArg String.toList heq
  rw [toList_recordName, toList_recordName, List.append_assoc, List.append_assoc] at hlist
  exact h (String.toList_inj.1 (List.append_cancel_right hlist))

variable (c : Cache) (w : World)

/-- The disk once the directory of a cache is made. -/
def made : Disk := (w.disk.makeDirectories w.cwd c.directory).2

/--
The directory of a cache holds no links, and if the path does not lead to a directory yet, then the one
that it leads to once directories are made holds no files either.
-/
def isReady : Bool :=
  match w.disk.directory? w.cwd c.directory with
  | some home => w.disk.holdsOnly home fun entry => !entry.isLink
  | none => ((c.made w).directory? w.cwd c.directory).all fun home =>
      (c.made w).holdsOnly home Entry.isDirectory

variable {c w}

theorem isReady_of_hasNoLink {home : Location}
    (hhome : w.disk.directory? w.cwd c.directory = some home)
    (h : ∀ name, w.disk.HasNoLink w.cwd c.directory name) : c.isReady w = true := by
  rw [isReady, hhome]
  refine List.all_eq_true.2 fun name _ => ?_
  cases hentry : w.disk.entry? (name :: home) with
  | none => rfl
  | some entry =>
    cases entry with
    | file content => rfl
    | directory => rfl
    | link target => exact absurd hentry (h name home hhome target)

theorem hasNoLink_of_isReady (h : c.isReady w = true) (name : String) :
    w.disk.HasNoLink w.cwd c.directory name := by
  intro home hhome target hentry
  rw [isReady, hhome] at h
  exact Bool.false_ne_true (Disk.kind_of_holdsOnly h hentry)

theorem recordIn_of_no_directory (h : w.disk.directory? w.cwd c.directory = none) (key : String) :
    c.recordIn w key = none := by
  have hlink : w.disk.HasNoLink w.cwd c.directory (recordName key) := by
    intro home hhome
    rw [h] at hhome
    cases hhome
  refine Option.eq_none_iff_forall_ne_some.2 fun record hrecord => ?_
  obtain ⟨bytes, hread, -⟩ := recordIn_eq_some.1 hrecord
  obtain ⟨-, home, hhome, -⟩ := (Disk.read_join_iff (isName_recordName key) hlink).1 hread
  rw [h] at hhome
  cases hhome

/-- In a directory that was just made, nothing is but directories that were just made. -/
theorem made_entry? (h : c.isReady w = true) {name : String} {home : Location} {entry : Entry}
    (hhome : (c.made w).directory? w.cwd c.directory = some home)
    (hentry : Disk.entry? (c.made w) (name :: home) = some entry) :
    entry = .directory ∨
      w.disk.directory? w.cwd c.directory = some home ∧ w.disk.entry? (name :: home) = some entry := by
  have hgrows : w.disk.Grows (c.made w) := Disk.grows_makeDirectories
  cases hbefore : w.disk.directory? w.cwd c.directory with
  | none =>
    rw [isReady, hbefore, hhome] at h
    have hkind := Disk.kind_of_holdsOnly h hentry
    cases entry with
    | directory => exact .inl rfl
    | file content => exact absurd hkind Bool.false_ne_true
    | link target => exact absurd hkind Bool.false_ne_true
  | some there =>
    rw [Disk.directory?_of_grows hgrows hbefore] at hhome
    rcases hgrows (name :: home) with heq | ⟨-, hnew⟩
    · exact .inr ⟨hhome, heq ▸ hentry⟩
    · rw [hnew] at hentry
      exact .inl (Option.some.inj hentry).symm

theorem made_hasNoLink (h : c.isReady w = true) (name : String) :
    (c.made w).HasNoLink w.cwd c.directory name := by
  intro home hhome target hentry
  rcases made_entry? h hhome hentry with hdirectory | ⟨hbefore, hlink⟩
  · cases hdirectory
  · exact hasNoLink_of_isReady h name home hbefore target hlink

/-- Making the directory changes nothing that can be read from it. -/
theorem read_made (h : c.isReady w = true) {name : String} (hname : Path.IsName name)
    {content : Bytes} : (c.made w).read w.cwd (c.directory.join name) = .ok content ↔
      w.disk.read w.cwd (c.directory.join name) = .ok content := by
  have hgrows : w.disk.Grows (c.made w) := Disk.grows_makeDirectories
  rw [Disk.read_join_iff hname (hasNoLink_of_isReady h name),
    Disk.read_join_iff hname (made_hasNoLink h name)]
  constructor
  · rintro ⟨hask, home, hhome, hentry⟩
    rcases made_entry? h hhome hentry with hdirectory | ⟨hbefore, hfile⟩
    · cases hdirectory
    · exact ⟨hask, home, hbefore, hfile⟩
  · rintro ⟨hask, home, hhome, hentry⟩
    refine ⟨hask, home, Disk.directory?_of_grows hgrows hhome, ?_⟩
    rcases hgrows (name :: home) with heq | ⟨hnone, -⟩
    · rw [heq, hentry]
    · rw [hnone] at hentry
      cases hentry

theorem slash_not_mem_freshWord (process count : Nat) :
    '/' ∉ (s!"{process}.{count}" : String).toList := by
  have hdigits (n : Nat) : '/' ∉ Nat.toDigits 10 n :=
    fun hmem => absurd (Text.isDigit_of_mem_toDigits hmem) (by decide)
  have hdot : (toString ".").toList = ['.'] := rfl
  simp [hdigits, hdot]

/-- What is asked for when a draft is put in its place, where all of it is granted. -/
theorem act_place {draft path : Path} {text : String}
    (h : w.grants (place draft path text).run = true) : ∃ drafted placed,
      w.disk.write w.cwd draft (Utf8.ofString text) = (.ok (), drafted) ∧
      drafted.rename w.cwd draft path = (.ok (), placed) ∧
      w.act (place draft path text) = (.ok (), { w with disk := placed }) := by
  unfold place at h ⊢
  rcases hwrite : w.disk.write w.cwd draft (Utf8.ofString text) with ⟨written, drafted⟩
  have hasked : w.perform (.writeFile draft (Utf8.ofString text)) =
      (written, { w with disk := drafted }) := by rw [World.perform, World.withDisk, hwrite]
  rw [World.grants_ask _ hasked] at h
  rw [World.act_ask _ hasked]
  cases written with
  | error refusal => cases h
  | ok _ =>
    replace h := (Bool.and_eq_true_iff.1 h).2
    dsimp only at h ⊢
    rcases hrename : drafted.rename w.cwd draft path with ⟨renamed, placed⟩
    have hasked' : World.perform { w with disk := drafted } (.rename draft path) =
        (renamed, { w with disk := placed }) := by rw [World.perform, World.withDisk, hrename]
    rw [World.grants_ask _ hasked'] at h
    rw [World.act_ask _ hasked']
    cases renamed with
    | error refusal => cases h
    | ok _ => exact ⟨drafted, placed, rfl, hrename, rfl⟩

/-- What is asked for when a record is stored, where all of it is granted. -/
theorem act_store {key : String} {goal : Goal} {fingerprint : Fingerprint}
    (h : w.grants (c.store key goal fingerprint).run = true) : ∃ word drafted placed,
      let record : Record := ⟨Record.currentVersion, key, goal, fingerprint, w.instant⟩
      '/' ∉ word.toList ∧
      (c.made w).write w.cwd (c.draftPath key word) (Utf8.ofString record.text) = (.ok (), drafted) ∧
      drafted.rename w.cwd (c.draftPath key word) (c.recordPath key) = (.ok (), placed) ∧
      (w.act (c.store key goal fingerprint)).2.disk = placed := by
  have hnow : w.perform .now = (w.instant, w.tick) := rfl
  unfold store at h ⊢
  rw [World.grants_ask _ hnow] at h
  rw [World.act_ask _ hnow]
  replace h := (Bool.and_eq_true_iff.1 h).2
  rcases hmade : w.disk.makeDirectories w.cwd c.directory with ⟨answer, made⟩
  have hasked : w.tick.perform (.makeDirectories c.directory) =
      (answer, { w.tick with disk := made }) :=
    congrArg (fun outcome => (outcome.1, { w.tick with disk := outcome.2 })) hmade
  cases answer with
  | error refusal =>
    rw [World.grants_act_bind, Action.doing, World.grants_orFail, World.grants_request] at h
    rw [hasked] at h
    cases h
  | ok _ =>
    have hmaking : w.tick.act (Action.doing s!"creating cache directory {c.directory}"
        (Program.request (.makeDirectories c.directory))) =
        (.ok (), { w.tick with disk := made }) := by
      rw [Action.doing, World.act_orFail, World.run_request, hasked]
      rfl
    rw [World.grants_bind_ok _ hmaking] at h
    rw [World.act_bind_ok _ _ hmaking]
    replace h := (Bool.and_eq_true_iff.1 h).2
    have hword : World.perform { w.tick with disk := made } .freshWord =
        (s!"{w.process}.{w.freshWords}",
          { w.tick with disk := made, freshWords := w.freshWords + 1 }) := rfl
    rw [World.grants_ask _ hword] at h
    rw [World.act_ask _ hword]
    replace h := (Bool.and_eq_true_iff.1 h).2
    rw [World.grants_act_bind] at h
    obtain ⟨drafted, placed, hwrite, hrename, hplace⟩ := act_place (Bool.and_eq_true_iff.1 h).1
    rw [World.act_bind_ok _ _ hplace, World.act_pure]
    have hdisk : c.made w = made := congrArg Prod.snd hmade
    refine ⟨_, drafted, placed, slash_not_mem_freshWord w.process w.freshWords, ?_, hrename, rfl⟩
    rw [hdisk]
    exact hwrite

/-- A disk after a record was stored in the directory that is made for it. -/
structure Holding (c : Cache) (w : World) (record : Record) (word : String) (after : Disk) : Prop where
  ways : (c.made w).SameWays after
  askable : Disk.Askable (c.recordPath record.key) (recordName record.key)
  placed : ∃ home, (c.made w).directory? w.cwd c.directory = some home ∧
    after.entry? (recordName record.key :: home) = some (.file (Utf8.ofString record.text)) ∧
    ∀ name, name ≠ recordName record.key → name ≠ draftName record.key word →
      after.entry? (name :: home) = Disk.entry? (c.made w) (name :: home)

/-- A draft that is written and then moved to the place of a record. -/
theorem holding_of_moved (hready : c.isReady w = true) {record : Record} {word : String}
    {drafted placed : Disk} (hword : '/' ∉ word.toList)
    (hwrite : (c.made w).write w.cwd (c.draftPath record.key word) (Utf8.ofString record.text) =
      (.ok (), drafted))
    (hrename : drafted.rename w.cwd (c.draftPath record.key word) (c.recordPath record.key) =
      (.ok (), placed)) : Holding c w record word placed := by
  have hdraft := isName_draftName record.key hword
  have hrecord := isName_recordName record.key
  obtain ⟨_, _, hfind, htarget, rfl⟩ := Disk.write_ok hwrite
  obtain ⟨home, rfl, hhome, hway⟩ := Disk.target_join hdraft (made_hasNoLink hready _) hfind htarget
  have hways : (c.made w).SameWays ((c.made w).put (draftName record.key word :: home)
      (.file (Utf8.ofString record.text))) := Disk.sameWays_put_file hway
  have hlinks (name : String) := (made_hasNoLink hready name).congr hways
  obtain ⟨_, entry, _, _, hsource, -, hto, htarget', rfl⟩ := Disk.rename_ok hrename
  have hask := ((Disk.find_join_iff hrecord (hlinks _) false).1 hto).1
  obtain ⟨source, rfl, hsourced, hentry⟩ := Disk.taken_join hdraft (hlinks _) hsource
  obtain ⟨target, rfl, htargeted, hfree⟩ := Disk.target_join hrecord (hlinks _) hto htarget'
  rw [Disk.directory?_congr hways, hhome] at hsourced htargeted
  cases hsourced
  cases htargeted
  rw [Disk.entry?_put, if_pos rfl] at hentry
  cases hentry
  -- Neither the draft nor the place of the record is a way, so moving the one to the other changes none.
  have hdrafted : ((c.made w).put (draftName record.key word :: home)
      (.file (Utf8.ofString record.text))).way? (draftName record.key word :: home) = none := by
    rw [hways, hway]
  have herased := Disk.sameWays_erase hdrafted
  refine ⟨?_, hask, home, hhome, ?_, ?_⟩
  · intro place
    rw [Disk.sameWays_put_file ((herased _).trans hfree), herased, hways]
  · rw [Disk.entry?_put, if_pos rfl]
  · intro name hrecord' hdraft'
    have hnot {other : String} (h : name ≠ other) : name :: home ≠ other :: home :=
      fun heq => h (List.cons.inj heq).1
    rw [Disk.entry?_put, if_neg (hnot hrecord'), Disk.entry?_erase, if_neg (hnot hdraft'),
      Disk.entry?_put, if_neg (hnot hdraft')]

theorem holding_of_store (hready : c.isReady w = true) {key : String} {goal : Goal}
    {fingerprint : Fingerprint} (h : w.grants (c.store key goal fingerprint).run = true) :
    ∃ word, Holding c w ⟨Record.currentVersion, key, goal, fingerprint, w.instant⟩ word
      (w.act (c.store key goal fingerprint)).2.disk := by
  obtain ⟨word, drafted, placed, hword, hwrite, hrename, hplaced⟩ := act_store h
  rw [hplaced]
  exact ⟨word, holding_of_moved hready hword hwrite hrename⟩

section

variable {w' : World} {record : Record} {word : String} (hready : c.isReady w = true)
  (h : Holding c w record word w'.disk) (hcwd : w'.cwd = w.cwd)

include hready h hcwd

theorem isReady_of_holding : c.isReady w' = true := by
  obtain ⟨home, hhome, -, -⟩ := h.placed
  have hafter : w'.disk.directory? w'.cwd c.directory = some home := by
    rw [hcwd, Disk.directory?_congr h.ways, hhome]
  refine isReady_of_hasNoLink hafter fun name => ?_
  rw [hcwd]
  exact (made_hasNoLink hready name).congr h.ways

theorem recordIn_of_holding (hversion : record.version = Record.currentVersion) :
    c.recordIn w' record.key = some record := by
  obtain ⟨home, hhome, hentry, -⟩ := h.placed
  refine recordIn_eq_some.2 ⟨Utf8.ofString record.text, ?_, Record.ofBytes?_text record, hversion, rfl⟩
  rw [hcwd]
  refine (Disk.read_join_iff (isName_recordName record.key)
    ((made_hasNoLink hready _).congr h.ways)).2 ⟨h.askable, home, ?_, hentry⟩
  rw [Disk.directory?_congr h.ways, hhome]

theorem recordIn_of_holding_ne {key : String} (hstem : stem key ≠ stem record.key) :
    c.recordIn w' key = c.recordIn w key := by
  refine recordIn_congr fun bytes => ?_
  obtain ⟨home, hhome, -, hothers⟩ := h.placed
  rw [hcwd]
  refine (Disk.read_join_congr (isName_recordName key) (made_hasNoLink hready _) h.ways ?_).trans
    (read_made hready (isName_recordName key))
  intro place hplace
  rw [hhome] at hplace
  cases hplace
  exact hothers _ (recordName_ne hstem) (recordName_ne_draftName key record.key word)

end

/-- What is asked for when a record is removed, where it is granted. -/
theorem disk_remove {key : String} (h : w.grants (c.remove key).run = true) : ∃ removed,
    w.disk.remove w.cwd (c.recordPath key) = (.ok (), removed) ∧
      (w.act (c.remove key)).2.disk = removed := by
  unfold remove removeFile at h ⊢
  rcases hremove : w.disk.remove w.cwd (c.recordPath key) with ⟨answer, removed⟩
  have hasked : w.perform (.removeFile (c.recordPath key)) = (answer, { w with disk := removed }) := by
    rw [World.perform, World.withDisk, hremove]
  rw [World.grants_ask _ hasked] at h
  rw [World.act_ask _ hasked]
  cases answer with
  | error refusal => cases h
  | ok _ => exact ⟨removed, rfl, rfl⟩

section

variable {key : String} (hready : c.isReady w = true) (h : w.grants (c.remove key).run = true)

include hready h

/-- A record that is removed is taken out of the directory, and nothing else is. -/
theorem disk_remove_eq : ∃ home, w.disk.directory? w.cwd c.directory = some home ∧
    w.disk.SameWays (w.act (c.remove key)).2.disk ∧
    (w.act (c.remove key)).2.disk = w.disk.erase (recordName key :: home) := by
  obtain ⟨_, hremove, hdisk⟩ := disk_remove h
  obtain ⟨place, entry, hfind, hentry, rfl⟩ := Disk.remove_ok hremove
  have hlink := hasNoLink_of_isReady hready (recordName key)
  obtain ⟨home, rfl, hhome, hway⟩ :=
    Disk.target_join (isName_recordName key) hlink hfind (.inr ⟨entry, hentry, rfl⟩)
  rw [hdisk]
  exact ⟨home, hhome, Disk.sameWays_erase hway, rfl⟩

theorem isReady_remove : c.isReady (w.act (c.remove key)).2 = true := by
  obtain ⟨home, hhome, hways, hdisk⟩ := disk_remove_eq hready h
  have hafter : (w.act (c.remove key)).2.disk.directory? (w.act (c.remove key)).2.cwd c.directory =
      some home := by
    rw [World.cwd_act, Disk.directory?_congr hways, hhome]
  refine isReady_of_hasNoLink hafter fun name => ?_
  rw [World.cwd_act]
  exact (hasNoLink_of_isReady hready name).congr hways

theorem recordIn_remove {other : String} (hstem : stem other = stem key) :
    c.recordIn (w.act (c.remove key)).2 other = none := by
  obtain ⟨home, hhome, hways, hdisk⟩ := disk_remove_eq hready h
  have hname : recordName other = recordName key := by rw [recordName, hstem, recordName]
  rw [Option.eq_none_iff_forall_ne_some]
  intro record hrecord
  obtain ⟨bytes, hread, -⟩ := recordIn_eq_some.1 hrecord
  rw [World.cwd_act] at hread
  obtain ⟨-, place, hplace, hentry⟩ := (Disk.read_join_iff (isName_recordName other)
    ((hasNoLink_of_isReady hready _).congr hways)).1 hread
  rw [Disk.directory?_congr hways, hhome] at hplace
  cases hplace
  rw [hdisk, hname, Disk.entry?_erase, if_pos rfl] at hentry
  cases hentry

theorem recordIn_remove_ne {other : String} (hstem : stem other ≠ stem key) :
    c.recordIn (w.act (c.remove key)).2 other = c.recordIn w other := by
  obtain ⟨home, hhome, hways, hdisk⟩ := disk_remove_eq hready h
  refine recordIn_congr fun bytes => ?_
  rw [World.cwd_act]
  refine Disk.read_join_congr (isName_recordName other) (hasNoLink_of_isReady hready _) hways ?_
  intro place hplace
  rw [hhome] at hplace
  cases hplace
  rw [hdisk, Disk.entry?_erase, if_neg]
  exact fun heq => recordName_ne hstem (List.cons.inj heq).1

end

end Cache
end ParseGoal
