import ParseGoal.Proofs.Cache.Store
import ParseGoal.Proofs.Program.Sight

/-!
A cache that is shared by programs, each of which stores and removes the record of one key: what each of them
may change of the directory, and that it needs nothing from the others but that they leave its files alone.
-/
namespace ParseGoal

/-- A change that is not refused is made. -/
theorem World.withDisk_of_granted {w : World} {refused : Except Refusal Unit → Bool}
    (hrefused : ∀ refusal, refused (.error refusal) = true) {outcome : Disk.Outcome Unit}
    (h : refused (w.withDisk outcome).1 = false) :
    ∃ disk, outcome = (.ok (), disk) ∧ w.withDisk outcome = (.ok (), { w with disk := disk }) := by
  obtain ⟨answer, disk⟩ := outcome
  cases answer with
  | error refusal => exact absurd ((hrefused refusal).symm.trans h) (by decide)
  | ok _ => exact ⟨disk, rfl, rfl⟩

namespace Cache

/-- Whether a name is that of a file of a key: before its first dot stands the key's stem. -/
def isNameOf (key name : String) : Bool := name.toList.takeWhile (· ≠ '.') = (stem key).toList

theorem hexDigit_ne_dot {n : Nat} (h : n < 16) : Text.hexDigit n ≠ '.' := by
  interval_cases n <;> decide

theorem takeWhile_stem (key : String) (rest : List Char) :
    ((stem key).toList ++ '.' :: rest).takeWhile (· ≠ '.') = (stem key).toList := by
  have hstem : ∀ c ∈ (stem key).toList, decide (c ≠ '.') = true := by
    intro c hc
    rw [stem, Sha256.hex, String.toList_ofList] at hc
    obtain ⟨b, -, hb⟩ := List.mem_flatMap.1 hc
    have hbyte := b.toNat_lt
    rcases List.mem_cons.1 hb with rfl | hb
    · exact decide_eq_true (hexDigit_ne_dot (by omega))
    · rw [List.mem_singleton.1 hb]
      exact decide_eq_true (hexDigit_ne_dot (by omega))
  rw [List.takeWhile_append_of_pos hstem, List.takeWhile_cons_of_neg (by simp), List.append_nil]

theorem isNameOf_recordName (key : String) : isNameOf key (recordName key) = true := by
  have hname : (recordName key).toList = (stem key).toList ++ '.' :: ['j', 's', 'o', 'n'] := by
    rw [toList_recordName]
    simp
  rw [isNameOf, hname]
  exact decide_eq_true (takeWhile_stem key _)

theorem isNameOf_draftName (key word : String) : isNameOf key (draftName key word) = true := by
  have hname : (draftName key word).toList =
      (stem key).toList ++ '.' :: (word.toList ++ ['.', 't', 'm', 'p']) := by
    rw [toList_draftName]
    simp
  rw [isNameOf, hname]
  exact decide_eq_true (takeWhile_stem key _)

theorem stem_eq_of_isNameOf {key other name : String} (h : isNameOf key name = true)
    (h' : isNameOf other name = true) : stem key = stem other :=
  String.toList_inj.1 ((of_decide_eq_true h).symm.trans (of_decide_eq_true h'))

/-- Whether files of a key are put at a location, once the directory of the cache is made. -/
def isPlaceOf (c : Cache) (w : World) (key : String) : Location → Bool
  | [] => false
  | name :: above => (c.made w).directory? w.cwd c.directory = some above ∧ isNameOf key name

variable {c : Cache} {w v v' v'' : World} {key : String} {home : Location} {places : Location → Prop}

theorem isPlaceOf_cons {name : String} : c.isPlaceOf w key (name :: home) = true ↔
    (c.made w).directory? w.cwd c.directory = some home ∧ isNameOf key name = true := decide_eq_true_iff

/-- Keys with different stems share no place. -/
theorem stem_eq_of_isPlaceOf {other : String} {place : Location} (h : c.isPlaceOf w key place = true)
    (h' : c.isPlaceOf w other place = true) : stem key = stem other := by
  cases place with
  | nil => cases h
  | cons name home => exact stem_eq_of_isNameOf (isPlaceOf_cons.1 h).2 (isPlaceOf_cons.1 h').2

theorem made_congr (hdisk : v.disk = w.disk) (hcwd : v.cwd = w.cwd) : c.made v = c.made w := by
  rw [made, made, hdisk, hcwd]

theorem made_of_directory (h : v.disk.directory? v.cwd c.directory = some home) : c.made v = v.disk :=
  Disk.makeDirectories_of_directory h

/--
What a world can become while a cache is used: the directory of the cache may have been made, and there are the
directories and links that there are once it is made.
-/
structure Within (c : Cache) (w v : World) : Prop where
  cwd : v.cwd = w.cwd
  fate : v.fate = w.fate
  disk : v.disk = w.disk ∨ v.disk = c.made v
  ways : (c.made w).SameWays (c.made v)

namespace Within

theorem refl (c : Cache) (w : World) : c.Within w w := ⟨rfl, rfl, .inl rfl, fun _ => rfl⟩

variable (h : c.Within w v)

include h

theorem directory : (c.made v).directory? v.cwd c.directory = (c.made w).directory? w.cwd c.directory := by
  rw [h.cwd, Disk.directory?_congr h.ways]

/-- A directory that the path leads to is the one that it leads to once it is made. -/
theorem directory_made (hhome : v.disk.directory? v.cwd c.directory = some home) :
    (c.made w).directory? w.cwd c.directory = some home := by
  rw [← h.directory, made_of_directory hhome, hhome]

theorem isReady (hready : c.isReady w = true) : c.isReady v = true := by
  rcases h.disk with hdisk | hdisk
  · rw [Cache.isReady, made_congr hdisk h.cwd, hdisk, h.cwd]
    exact hready
  · cases hhome : v.disk.directory? v.cwd c.directory with
    | none => rw [Cache.isReady, hhome, ← hdisk, hhome]; rfl
    | some home =>
      refine isReady_of_hasNoLink hhome fun name => ?_
      rw [hdisk, h.cwd]
      exact (made_hasNoLink hready name).congr h.ways

/-- A key has the record that it had, if the same is in the place of its record. -/
theorem recordIn_eq (hready : c.isReady w = true)
    (hsame : ∀ home, (c.made w).directory? w.cwd c.directory = some home →
      Disk.entry? (c.made v) (recordName key :: home) = Disk.entry? (c.made w) (recordName key :: home)) :
    c.recordIn v key = c.recordIn w key := by
  refine recordIn_congr fun bytes => ?_
  have hname := isName_recordName key
  have hmade : (c.made v).read v.cwd (c.recordPath key) = .ok bytes ↔
      (c.made w).read w.cwd (c.recordPath key) = .ok bytes := by
    rw [h.cwd]
    exact Disk.read_join_congr hname (made_hasNoLink hready _) h.ways hsame
  exact (read_made (h.isReady hready) hname).symm.trans (hmade.trans (read_made hready hname))

/-- Whether the directory is made yet makes no difference to a place that is the same once it is. -/
theorem entry?_made {place : Location} (hsame : Disk.entry? (c.made w) place = w.disk.entry? place) :
    v.disk.entry? place = Disk.entry? (c.made v) place := by
  rcases h.disk with hdisk | hdisk
  · rw [made_congr hdisk h.cwd, hdisk, hsame]
  · rw [← hdisk]

end Within

/--
In a world that has become of `w`, nothing is done but to make the directory of a cache and to change what is at
some places in it.
-/
def Changes (c : Cache) (w : World) (places : Location → Prop) (v v' : World) : Prop :=
  c.Within w v → c.Within w v' ∧
    ∀ place, ¬places place → Disk.entry? (c.made v') place = Disk.entry? (c.made v) place

namespace Changes

theorem refl (c : Cache) (w : World) (places : Location → Prop) (v : World) : c.Changes w places v v :=
  fun h => ⟨h, fun _ _ => rfl⟩

theorem trans (h : c.Changes w places v v') (h' : c.Changes w places v' v'') : c.Changes w places v v'' := by
  intro hwithin
  obtain ⟨hfirst, hsame⟩ := h hwithin
  obtain ⟨hsecond, hsame'⟩ := h' hfirst
  exact ⟨hsecond, fun place hplace => (hsame' place hplace).trans (hsame place hplace)⟩

theorem mono {others : Location → Prop} (h : c.Changes w places v v')
    (hsub : ∀ place, places place → others place) : c.Changes w others v v' :=
  fun hwithin => ⟨(h hwithin).1, fun place hplace => (h hwithin).2 place fun hin => hplace (hsub place hin)⟩

/-- Where others change what is not at the places of a key, its files are the same. -/
theorem entry?_eq (h : c.Changes w (¬c.isPlaceOf w key · = true) v v') (hwithin : c.Within w v)
    (hhome : (c.made w).directory? w.cwd c.directory = some home) {name : String}
    (hown : isNameOf key name = true) :
    Disk.entry? (c.made v') (name :: home) = Disk.entry? (c.made v) (name :: home) :=
  (h hwithin).2 _ (not_not_intro (isPlaceOf_cons.2 ⟨hhome, hown⟩))

/-- Nothing changes that is not on the disk. -/
theorem of_disk_eq (hdisk : v'.disk = v.disk) (hcwd : v'.cwd = v.cwd) (hfate : v'.fate = v.fate) :
    c.Changes w places v v' := by
  intro h
  have hmade : c.made v' = c.made v := made_congr hdisk hcwd
  refine ⟨⟨hcwd.trans h.cwd, hfate.trans h.fate, ?_, ?_⟩, fun place _ => by rw [hmade]⟩
  · rw [hdisk, hmade]
    exact h.disk
  · rw [hmade]
    exact h.ways

theorem of_made (h : v.disk.makeDirectories v.cwd c.directory = (.ok (), c.made v)) :
    c.Changes w places v { v with disk := c.made v } := by
  intro hwithin
  obtain ⟨home, hhome⟩ := Disk.directory?_of_makeDirectories h
  have hmade : c.made { v with disk := c.made v } = c.made v := made_of_directory hhome
  refine ⟨⟨hwithin.cwd, hwithin.fate, .inr hmade.symm, ?_⟩, fun place _ => by rw [hmade]⟩
  rw [hmade]
  exact hwithin.ways

/-- Where the directory is there, and no directory or link is changed. -/
theorem of_ways {disk : Disk} (hhome : v.disk.directory? v.cwd c.directory = some home)
    (hways : v.disk.SameWays disk) (hsame : ∀ place, ¬places place → disk.entry? place = v.disk.entry? place) :
    c.made { v with disk := disk } = disk ∧ c.Changes w places v { v with disk := disk } := by
  have hafter : disk.directory? v.cwd c.directory = some home := by rw [Disk.directory?_congr hways, hhome]
  have hmade : c.made { v with disk := disk } = disk := made_of_directory hafter
  refine ⟨hmade, fun hwithin => ⟨⟨hwithin.cwd, hwithin.fate, .inr hmade.symm, fun place => ?_⟩, ?_⟩⟩
  · rw [hmade, hways, ← made_of_directory hhome, hwithin.ways]
  · intro place hplace
    rw [hmade, made_of_directory hhome, hsame place hplace]

end Changes

section Files

variable (hready : c.isReady w = true) (h : c.Within w v)

include hready h

/-- A file of a key that is written. -/
theorem changes_write {name : String} (hname : Path.IsName name) (hown : isNameOf key name = true)
    {content : Bytes} {disk : Disk}
    (hwrite : v.disk.write v.cwd (c.directory.join name) content = (.ok (), disk)) :
    ∃ home, (c.made w).directory? w.cwd c.directory = some home ∧
      c.Changes w (c.isPlaceOf w key · = true) v { v with disk := disk } ∧
      Disk.entry? (c.made { v with disk := disk }) (name :: home) = some (.file content) := by
  obtain ⟨_, _, hfind, htarget, rfl⟩ := Disk.write_ok hwrite
  obtain ⟨home, rfl, hhome, hway⟩ :=
    Disk.target_join hname (hasNoLink_of_isReady (h.isReady hready) name) hfind htarget
  have hbase := h.directory_made hhome
  have hothers : ∀ place, ¬c.isPlaceOf w key place = true →
      Disk.entry? (v.disk.put (name :: home) (.file content)) place = v.disk.entry? place := by
    intro place hplace
    rw [Disk.entry?_put, if_neg]
    rintro rfl
    exact hplace (isPlaceOf_cons.2 ⟨hbase, hown⟩)
  obtain ⟨hmade, hchanges⟩ := Changes.of_ways (w := w) hhome (Disk.sameWays_put_file hway) hothers
  refine ⟨home, hbase, hchanges, ?_⟩
  rw [hmade, Disk.entry?_put, if_pos rfl]

/-- A file of a key that is moved to the place of its record. -/
theorem changes_rename {draft : String} (hdraft : Path.IsName draft) (hown : isNameOf key draft = true)
    (hbase : (c.made w).directory? w.cwd c.directory = some home) {content : Bytes}
    (hdrafted : Disk.entry? (c.made v) (draft :: home) = some (.file content)) {disk : Disk}
    (hrename : v.disk.rename v.cwd (c.directory.join draft) (c.recordPath key) = (.ok (), disk)) :
    Disk.Askable (c.recordPath key) (recordName key) ∧
      c.Changes w (c.isPlaceOf w key · = true) v { v with disk := disk } ∧
      Disk.entry? (c.made { v with disk := disk }) (recordName key :: home) = some (.file content) := by
  have hlink := hasNoLink_of_isReady (h.isReady hready)
  obtain ⟨_, entry, _, _, hsource, -, hto, htarget, rfl⟩ := Disk.rename_ok hrename
  obtain ⟨source, rfl, hhome, hentry⟩ := Disk.taken_join hdraft (hlink draft) hsource
  obtain ⟨target, rfl, htargeted, hfree⟩ :=
    Disk.target_join (isName_recordName key) (hlink (recordName key)) hto htarget
  rw [hhome] at htargeted
  cases htargeted
  rw [h.directory_made hhome] at hbase
  cases hbase
  rw [made_of_directory hhome, hentry] at hdrafted
  cases hdrafted
  have hbase := h.directory_made hhome
  have herased : v.disk.SameWays (v.disk.erase (draft :: home)) := by
    refine Disk.sameWays_erase (Disk.way?_eq_none ?_ fun target => ?_) <;>
    · rw [hentry]
      exact nofun
  have hways : v.disk.SameWays ((v.disk.erase (draft :: home)).put (recordName key :: home) (.file content)) :=
    fun place => (Disk.sameWays_put_file ((herased _).trans hfree) place).trans (herased place)
  have hothers : ∀ place, ¬c.isPlaceOf w key place = true →
      Disk.entry? ((v.disk.erase (draft :: home)).put (recordName key :: home) (.file content)) place =
        v.disk.entry? place := by
    intro place hplace
    have hnot {name : String} (hname : isNameOf key name = true) : place ≠ name :: home := by
      rintro rfl
      exact hplace (isPlaceOf_cons.2 ⟨hbase, hname⟩)
    rw [Disk.entry?_put, if_neg (hnot (isNameOf_recordName key)), Disk.entry?_erase, if_neg (hnot hown)]
  obtain ⟨hmade, hchanges⟩ := Changes.of_ways (w := w) hhome hways hothers
  refine ⟨((Disk.find_join_iff (isName_recordName key) (hlink _) false).1 hto).1, hchanges, ?_⟩
  rw [hmade, Disk.entry?_put, if_pos rfl]

/-- A record that is removed. -/
theorem changes_remove {disk : Disk} (hremove : v.disk.remove v.cwd (c.recordPath key) = (.ok (), disk)) :
    ∃ home, (c.made w).directory? w.cwd c.directory = some home ∧
      c.Changes w (c.isPlaceOf w key · = true) v { v with disk := disk } ∧
      Disk.entry? (c.made { v with disk := disk }) (recordName key :: home) = none := by
  obtain ⟨_, entry, hfind, hentry, rfl⟩ := Disk.remove_ok hremove
  obtain ⟨home, rfl, hhome, hway⟩ := Disk.target_join (isName_recordName key)
    (hasNoLink_of_isReady (h.isReady hready) _) hfind (.inr ⟨entry, hentry, rfl⟩)
  have hbase := h.directory_made hhome
  have hothers : ∀ place, ¬c.isPlaceOf w key place = true →
      Disk.entry? (v.disk.erase (recordName key :: home)) place = v.disk.entry? place := by
    intro place hplace
    rw [Disk.entry?_erase, if_neg]
    rintro rfl
    exact hplace (isPlaceOf_cons.2 ⟨hbase, isNameOf_recordName key⟩)
  obtain ⟨hmade, hchanges⟩ := Changes.of_ways (w := w) hhome (Disk.sameWays_erase hway) hothers
  refine ⟨home, hbase, hchanges, ?_⟩
  rw [hmade, Disk.entry?_erase, if_pos rfl]

end Files

/-- A record is in its place in a world that has become of `w`. -/
structure Has (c : Cache) (w v : World) (record : Record) : Prop where
  askable : Disk.Askable (c.recordPath record.key) (recordName record.key)
  placed : ∃ home, (c.made w).directory? w.cwd c.directory = some home ∧
    Disk.entry? (c.made v) (recordName record.key :: home) = some (.file (Utf8.ofString record.text))

/-- No record of a key is in its place in a world that has become of `w`. -/
def Lacks (c : Cache) (w v : World) (key : String) : Prop :=
  ∃ home, (c.made w).directory? w.cwd c.directory = some home ∧
    Disk.entry? (c.made v) (recordName key :: home) = none

theorem Has.of_changes {record : Record} (h : c.Has w v record) (hwithin : c.Within w v)
    (hchanges : c.Changes w (¬c.isPlaceOf w record.key · = true) v v') : c.Has w v' record := by
  obtain ⟨haskable, home, hhome, hentry⟩ := h
  refine ⟨haskable, home, hhome, ?_⟩
  rw [hchanges.entry?_eq hwithin hhome (isNameOf_recordName _), hentry]

theorem Lacks.of_changes (h : c.Lacks w v key) (hwithin : c.Within w v)
    (hchanges : c.Changes w (¬c.isPlaceOf w key · = true) v v') : c.Lacks w v' key := by
  obtain ⟨home, hhome, hentry⟩ := h
  refine ⟨home, hhome, ?_⟩
  rw [hchanges.entry?_eq hwithin hhome (isNameOf_recordName _), hentry]

/-- A record that is in its place is found. -/
theorem Has.recordIn_eq {record : Record} (h : c.Has w v record) (hwithin : c.Within w v)
    (hready : c.isReady w = true) (hversion : record.version = Record.currentVersion) :
    c.recordIn v record.key = some record := by
  obtain ⟨haskable, home, hhome, hentry⟩ := h
  have hname := isName_recordName record.key
  have hreadable := hwithin.isReady hready
  refine recordIn_eq_some.2 ⟨Utf8.ofString record.text, ?_, Record.ofBytes?_text record, hversion, rfl⟩
  refine (read_made hreadable hname).1 ((Disk.read_join_iff hname (made_hasNoLink hreadable _)).2 ?_)
  exact ⟨haskable, home, hwithin.directory.trans hhome, hentry⟩

/-- Where no record of a key is in its place, none is found, and none of a key with the same stem. -/
theorem Lacks.recordIn_eq {other : String} (h : c.Lacks w v key) (hwithin : c.Within w v)
    (hready : c.isReady w = true) (hstem : stem other = stem key) : c.recordIn v other = none := by
  obtain ⟨home, hhome, hentry⟩ := h
  have hreadable := hwithin.isReady hready
  have hname : recordName other = recordName key := by rw [recordName, hstem, recordName]
  refine Option.eq_none_iff_forall_ne_some.2 fun record hrecord => ?_
  obtain ⟨bytes, hread, -⟩ := recordIn_eq_some.1 hrecord
  obtain ⟨-, there, hthere, hfile⟩ := (Disk.read_join_iff (isName_recordName other)
    (made_hasNoLink hreadable _)).1 ((read_made hreadable (isName_recordName other)).2 hread)
  rw [hwithin.directory, hhome] at hthere
  cases hthere
  rw [hname, hentry] at hfile
  cases hfile

/-- Terms under which the files of a key are one's own. -/
structure Owns (c : Cache) (w : World) (key : String) (terms : Program.Terms) : Prop where
  rely {v v' : World} (h : terms.rely v v') : c.Changes w (¬c.isPlaceOf w key · = true) v v'
  guarantee {v v' : World} (h : c.Changes w (c.isPlaceOf w key · = true) v v') : terms.guarantee v v'

namespace Owns

variable {terms : Program.Terms} (howns : c.Owns w key terms) (hready : c.isReady w = true)

include howns hready

/-- The record of a key is found as it was before others went on, and so is that of a key with its stem. -/
theorem recordIn_eq {other : String} (hrely : terms.rely w v) (hstem : stem other = stem key) :
    c.recordIn v other = c.recordIn w other := by
  have hchanges := howns.rely hrely
  have hname : recordName other = recordName key := by rw [recordName, hstem, recordName]
  refine (hchanges (.refl c w)).1.recordIn_eq hready fun home hhome => ?_
  rw [hname]
  exact hchanges.entry?_eq (.refl c w) hhome (isNameOf_recordName key)

theorem abides_lookup :
    Program.Abides terms (fun found v => found = c.recordIn w key ∧ terms.rely w v) (c.lookup key) w := by
  rw [lookup]
  refine .request fun v hrely _ => ⟨howns.guarantee (.refl c w _ v), ?_⟩
  have hfound := howns.recordIn_eq hready hrely rfl
  rw [Cache.recordIn_eq] at hfound
  rw [World.perform]
  cases hread : v.disk.read v.cwd (c.recordPath key) with
  | ok bytes =>
    rw [hread] at hfound
    exact fun v' hmore => ⟨hfound, terms.trans hrely hmore⟩
  | error refusal =>
    rw [hread] at hfound
    exact fun v' hmore => ⟨hfound, terms.trans hrely hmore⟩

omit hready in
/-- The directory of the cache is made. -/
theorem abides_makeDirectories (hwithin : c.Within w v) (what : String) :
    Program.Abides terms (fun answer v => answer = .ok () ∧ c.Within w v)
      (Action.doing what (Program.request (.makeDirectories c.directory))).run v := by
  refine .request fun v₁ hrely₁ hgranted => ?_
  replace hwithin := (howns.rely hrely₁ hwithin).1
  obtain ⟨disk, hmake, hasked⟩ := World.withDisk_of_granted (fun _ => rfl) hgranted
  rw [show v₁.perform (.makeDirectories c.directory) = _ from hasked]
  obtain rfl : c.made v₁ = disk := congrArg Prod.snd hmake
  have hchanges : c.Changes w (c.isPlaceOf w key · = true) v₁ { v₁ with disk := c.made v₁ } := .of_made hmake
  refine ⟨howns.guarantee hchanges, fun v₂ hrely₂ => ⟨rfl, ?_⟩⟩
  exact (howns.rely hrely₂ (hchanges hwithin).1).1

/-- A draft is put in the place of the record of its key. -/
theorem abides_place (hwithin : c.Within w v) {record : Record} (hkey : record.key = key) {word : String}
    (hword : '/' ∉ word.toList) :
    Program.Abides terms (fun answer v => answer = .ok () ∧ c.Within w v ∧ c.Has w v record)
      (place (c.draftPath key word) (c.recordPath key) record.text).run v := by
  have hdraft := isName_draftName key hword
  have hown := isNameOf_draftName key word
  refine .ask fun v₁ hrely₁ hgranted => ?_
  replace hwithin := (howns.rely hrely₁ hwithin).1
  obtain ⟨disk, hwrite, hasked⟩ := World.withDisk_of_granted (fun _ => rfl) hgranted
  rw [show v₁.perform (.writeFile (c.draftPath key word) (Utf8.ofString record.text)) = _ from hasked]
  obtain ⟨home, hhome, hchanges, hdrafted⟩ := changes_write hready hwithin hdraft hown hwrite
  refine ⟨howns.guarantee hchanges, .ask fun v₂ hrely₂ hgranted => ?_⟩
  replace hwithin := (hchanges hwithin).1
  rw [← (howns.rely hrely₂).entry?_eq hwithin hhome hown] at hdrafted
  have hwithin₂ := (howns.rely hrely₂ hwithin).1
  obtain ⟨placed, hrename, hasked⟩ := World.withDisk_of_granted (fun _ => rfl) hgranted
  rw [show v₂.perform (.rename (c.draftPath key word) (c.recordPath key)) = _ from hasked]
  obtain ⟨haskable, hchanges, hplaced⟩ := changes_rename hready hwithin₂ hdraft hown hhome hdrafted hrename
  refine ⟨howns.guarantee hchanges, fun v₃ hrely₃ => ?_⟩
  have hhas : c.Has w { v₂ with disk := placed } record := by
    subst hkey
    exact ⟨haskable, home, hhome, hplaced⟩
  have hwithin₃ := (hchanges hwithin₂).1
  have hkept := howns.rely hrely₃
  rw [← hkey] at hkept
  exact ⟨rfl, (hkept hwithin₃).1, hhas.of_changes hwithin₃ hkept⟩

/-- Storing a record puts it in its place. -/
theorem abides_store (hwithin : c.Within w v) (goal : Goal) (fingerprint : Fingerprint) :
    Program.Abides terms (fun _ v => c.Within w v ∧
      ∃ instant, c.Has w v ⟨Record.currentVersion, key, goal, fingerprint, instant⟩)
      (c.store key goal fingerprint).run v := by
  unfold store
  refine .ask fun v₁ hrely₁ _ => ?_
  have htick : c.Changes w (c.isPlaceOf w key · = true) v₁ v₁.tick := .of_disk_eq rfl rfl rfl
  replace hwithin := (htick (howns.rely hrely₁ hwithin).1).1
  refine ⟨howns.guarantee htick, .act_bind (howns.abides_makeDirectories hwithin _) (fun _ v₂ hwithin₂ => ?_)
    fun e v₂ hwithin₂ => ?_⟩
  · refine .ask fun v₃ hrely₃ _ => ?_
    have hword : c.Changes w (c.isPlaceOf w key · = true) v₃ (v₃.perform .freshWord).2 :=
      .of_disk_eq rfl rfl rfl
    have hwithin₃ := (hword (howns.rely hrely₃ hwithin₂.2).1).1
    refine ⟨howns.guarantee hword, .act_bind (howns.abides_place hready hwithin₃ rfl
      (slash_not_mem_freshWord v₃.process v₃.freshWords)) (fun _ v₄ hplaced => ?_) fun e v₄ hplaced => ?_⟩
    · intro v₅ hrely₅
      obtain ⟨-, hwithin₄, hhas⟩ := hplaced
      exact ⟨(howns.rely hrely₅ hwithin₄).1, _, hhas.of_changes hwithin₄ (howns.rely hrely₅)⟩
    · cases hplaced.1
  · cases hwithin₂.1

/-- Removing a record leaves none in its place. -/
theorem abides_remove (hwithin : c.Within w v) :
    Program.Abides terms (fun _ v => c.Within w v ∧ c.Lacks w v key) (c.remove key).run v := by
  unfold remove removeFile
  refine .ask fun v₁ hrely₁ hgranted => ?_
  replace hwithin := (howns.rely hrely₁ hwithin).1
  obtain ⟨disk, hremove, hasked⟩ := World.withDisk_of_granted (fun _ => rfl) hgranted
  rw [show v₁.perform (.removeFile (c.recordPath key)) = _ from hasked]
  obtain ⟨home, hhome, hchanges, hnone⟩ := changes_remove hready hwithin hremove
  refine ⟨howns.guarantee hchanges, fun v₂ hrely₂ => ?_⟩
  replace hwithin := (hchanges hwithin).1
  have hlacks : c.Lacks w { v₁ with disk := disk } key := ⟨home, hhome, hnone⟩
  exact ⟨(howns.rely hrely₂ hwithin).1, hlacks.of_changes hwithin (howns.rely hrely₂)⟩

end Owns

end Cache
end ParseGoal
