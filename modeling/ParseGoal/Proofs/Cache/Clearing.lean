import ParseGoal.Proofs.Cache.Effects

/-!
Clearing a directory of files, whatever they hold: if it comes to its end, all records and drafts are gone,
the records have been counted, and everything else is as it was.
-/
namespace ParseGoal.Cache

variable {c : Cache} {w w' : World} {home : Location} {name : String}

/-- Whether a name is that of a record, by its extension. -/
def isRecordName (name : String) : Bool := Path.extension? name = some "json"

/-- Whether a name is that of a record or a draft. -/
def isOwnName (name : String) : Bool :=
  Path.extension? name = some "json" ∨ Path.extension? name = some "tmp"

/-- The directory `home` of a cache holds regular files and nothing else. -/
structure HoldsFiles (c : Cache) (w : World) (home : Location) : Prop where
  directory : w.disk.directory? w.cwd c.directory = some home
  files : ∀ name entry, w.disk.entry? (name :: home) = some entry → ∃ content, entry = .file content

namespace HoldsFiles

variable (h : HoldsFiles c w home)

include h

theorem way?_eq_none (name : String) : w.disk.way? (name :: home) = none := by
  refine Disk.way?_eq_none (fun hentry => ?_) fun target hentry => ?_ <;>
  · obtain ⟨content, hfile⟩ := h.files _ _ hentry
    cases hfile

theorem hasNoLink (name : String) : w.disk.HasNoLink w.cwd c.directory name := by
  intro place hplace target hentry
  rw [h.directory] at hplace
  cases hplace
  obtain ⟨content, hfile⟩ := h.files _ _ hentry
  cases hfile

theorem erase (name : String) : HoldsFiles c { w with disk := w.disk.erase (name :: home) } home where
  directory := by
    change (w.disk.erase _).directory? w.cwd c.directory = _
    rw [Disk.directory?_congr (Disk.sameWays_erase (h.way?_eq_none _)), h.directory]
  files other entry hentry := by
    rw [Disk.entry?_erase] at hentry
    split at hentry
    · cases hentry
    · exact h.files _ _ hentry

/-- A file that is removed by its name is gone from the directory. -/
theorem act_removing (hname : Path.IsName name) (what : String)
    (hok : (w.act (Action.doing what (Program.request (.removeFile (c.directory.join name))))).1 = .ok ()) :
    w.act (Action.doing what (Program.request (.removeFile (c.directory.join name)))) =
      (.ok (), { w with disk := w.disk.erase (name :: home) }) := by
  rcases hremove : w.disk.remove w.cwd (c.directory.join name) with ⟨answer, disk⟩
  rw [Action.doing, World.act_orFail, World.run_request, World.perform, World.withDisk, hremove] at hok ⊢
  cases answer with
  | error refusal => cases hok
  | ok _ =>
    obtain ⟨place, entry, hfind, -, rfl⟩ := Disk.remove_ok hremove
    obtain ⟨above, rfl, habove, -⟩ := Disk.taken_join hname (h.hasNoLink name) hfind
    rw [h.directory] at habove
    cases habove
    rfl

omit h in
theorem clearEach_cons (c : Cache) (name : String) (rest : List String) :
    c.clearEach (name :: rest) =
      if isOwnName name = true then do
        Action.doing s!"removing cache record {c.directory.join name}"
          (Program.request (.removeFile (c.directory.join name)))
        let count ← c.clearEach rest
        return if isRecordName name = true then count + 1 else count
      else c.clearEach rest := by
  rw [clearEach]
  simp only [isOwnName, isRecordName, decide_eq_true_eq]

/-- Clearing that comes to its end has removed the records and drafts among the names, and nothing else. -/
theorem clearEach_ok {names : List String} (hnames : ∀ name ∈ names, Path.IsName name) {count : Nat}
    (hok : w.act (c.clearEach names) = (.ok count, w')) :
    count = names.countP isRecordName ∧ w'.output = w.output ∧
      (∀ name ∈ names, isOwnName name = true → w'.disk.entry? (name :: home) = none) ∧
      ∀ place, (∀ name ∈ names, isOwnName name = true → place ≠ name :: home) →
        w'.disk.entry? place = w.disk.entry? place := by
  induction names generalizing w w' count with
  | nil =>
    cases hok
    exact ⟨rfl, rfl, by simp, fun _ _ => rfl⟩
  | cons name rest ih =>
    have hrest : ∀ other ∈ rest, Path.IsName other := fun other hother => hnames other (.tail _ hother)
    rw [clearEach_cons] at hok
    by_cases hown : isOwnName name = true
    · rw [if_pos hown, World.act_bind] at hok
      split at hok
      case h_2 => cases hok
      next hremoved =>
      have hremove := h.act_removing (hnames name (.head _)) _ hremoved
      rw [hremove, World.act_bind] at hok
      split at hok
      case h_2 => cases hok
      next more hmore =>
      obtain ⟨hcount, houtput, hgone, hsame⟩ := ih (h.erase name) hrest (Prod.ext hmore rfl)
      cases hok
      refine ⟨?_, houtput, fun other hother hothers => ?_, fun place hplace => ?_⟩
      · rw [List.countP_cons, hcount]
        split <;> rfl
      · -- A name that comes again is gone in the end; one that does not come again is never put back.
        by_cases hmem : other ∈ rest
        · exact hgone other hmem hothers
        · obtain rfl : other = name := (List.mem_cons.1 hother).resolve_right hmem
          have hlater : ∀ later ∈ rest, isOwnName later = true → other :: home ≠ later :: home := by
            intro later hlater _ heq
            rw [(List.cons.inj heq).1] at hmem
            exact hmem hlater
          rw [hsame _ hlater, Disk.entry?_erase, if_pos rfl]
      · rw [hsame place fun other hother => hplace other (.tail _ hother), Disk.entry?_erase,
          if_neg (hplace name (.head _) hown)]
    · rw [if_neg hown] at hok
      obtain ⟨hcount, houtput, hgone, hsame⟩ := ih h hrest hok
      have hkind : isRecordName name = false := by
        rw [Bool.eq_false_iff]
        intro hrecord
        exact hown (by rw [isOwnName, decide_eq_true_eq]; exact .inl (of_decide_eq_true hrecord))
      refine ⟨?_, houtput, fun other hother hothers => ?_, fun place hplace => ?_⟩
      · rw [List.countP_cons_of_neg (by simp [hkind]), hcount]
      · rcases List.mem_cons.1 hother with rfl | hother
        · exact absurd hothers hown
        · exact hgone other hother hothers
      · exact hsame place fun other hother => hplace other (.tail _ hother)

end HoldsFiles

/-! What is listed before. -/

/-- A file of the directory can be read as a record of the current version. -/
def HoldsRecord (c : Cache) (w : World) (name : String) : Prop :=
  ∃ content record, w.disk.read w.cwd (c.directory.join name) = .ok content ∧
    Record.ofBytes? content = some record ∧ record.version = Record.currentVersion

theorem isQuiet_readEach (c : Cache) (names : List String) : (c.readEach names).IsQuiet := by
  induction names with
  | nil => exact .pure _
  | cons name rest ih =>
    rw [readEach]
    split
    · exact .bind (.readFile _) fun content => .bind ih fun more => .pure _
    · exact ih

theorem holdsRecord_iff : c.HoldsRecord w name ↔
    (((w.disk.read w.cwd (c.directory.join name)).toOption.bind Record.ofBytes?).filter
      (·.version = Record.currentVersion)).toList ≠ [] := by
  unfold HoldsRecord
  rw [Ne, Option.toList_eq_nil_iff, ← Ne, Option.ne_none_iff_exists']
  constructor
  · rintro ⟨content, record, hread, hrecord, hversion⟩
    refine ⟨record, Option.filter_eq_some_iff.2 ⟨?_, decide_eq_true hversion⟩⟩
    rw [hread]
    exact hrecord
  · rintro ⟨record, hfound⟩
    obtain ⟨hrecord, hversion⟩ := Option.filter_eq_some_iff.1 hfound
    cases hread : w.disk.read w.cwd (c.directory.join name) with
    | error refusal =>
      rw [hread] at hrecord
      cases hrecord
    | ok content =>
      rw [hread] at hrecord
      exact ⟨content, record, rfl, hrecord, of_decide_eq_true hversion⟩

/-- Something is listed exactly if one of the names is that of a record that can be read. -/
theorem readEach_ne_nil {names : List String} : (w.run (c.readEach names)).1 ≠ [] ↔
    ∃ name ∈ names, isRecordName name = true ∧ c.HoldsRecord w name := by
  induction names with
  | nil => exact ⟨fun h => absurd rfl h, nofun⟩
  | cons name rest ih =>
    rw [readEach, List.exists_mem_cons_iff, ← ih]
    by_cases hkind : Path.extension? name = some "json"
    · have hrecord : isRecordName name = true := decide_eq_true hkind
      rw [if_pos hkind, World.run_bind, World.run_request, World.perform, World.run_bind, World.run_pure,
        hrecord, holdsRecord_iff]
      dsimp only
      rw [Ne, List.append_eq_nil_iff, not_and_or]
      simp only [true_and]
    · have hrecord : isRecordName name = false := decide_eq_false hkind
      rw [if_neg hkind, hrecord]
      exact ⟨.inr, fun h => h.resolve_left fun hname => Bool.false_ne_true hname.1⟩

theorem act_list {names : List String} (h : w.disk.list w.cwd c.directory = .ok names) :
    w.act c.list = (.ok ((w.run (c.readEach names)).1.mergeSort isBefore), w) := by
  rw [list, World.act_bind_ok _ _ (act_names_ok h), World.act_bind, World.act_ofProgram,
    (isQuiet_readEach c names).run_eq]
  rfl

theorem act_clear {names : List String} (h : w.disk.list w.cwd c.directory = .ok names) :
    w.act c.clear = w.act (c.clearEach names) := by
  rw [clear, World.act_bind_ok _ _ (act_names_ok h)]

end ParseGoal.Cache
