import ParseGoal.Cache.Store
import ParseGoal.Proofs.World

/-! Which record a cache has for a key, read off the file of the key. -/
namespace ParseGoal.Cache

variable (c : Cache) (w : World) (key : String)

/-- The record that is found for a key. -/
def recordIn : Option Record := (w.run (c.lookup key)).1

theorem isQuiet_lookup : (c.lookup key).IsQuiet := by
  refine .bind (.readFile _) fun content => ?_
  split <;> exact .pure _

theorem run_lookup : w.run (c.lookup key) = (c.recordIn w key, w) := (isQuiet_lookup c key).run_eq w

theorem recordIn_eq : c.recordIn w key =
    match w.disk.read w.cwd (c.recordPath key) with
    | .ok bytes => (Record.ofBytes? bytes).filter (accepts key)
    | .error _ => none := by
  unfold recordIn lookup
  rw [World.run_bind, World.run_request]
  simp only [World.perform]
  cases w.disk.read w.cwd (c.recordPath key) with
  | ok bytes => rw [World.run_pure]
  | error refusal => rw [World.run_pure]

variable {c w key}

theorem recordIn_eq_some {record : Record} : c.recordIn w key = some record ↔
    ∃ bytes, w.disk.read w.cwd (c.recordPath key) = .ok bytes ∧ Record.ofBytes? bytes = some record ∧
      record.version = Record.currentVersion ∧ record.key = key := by
  rw [recordIn_eq]
  cases w.disk.read w.cwd (c.recordPath key) with
  | error refusal => simp
  | ok bytes => simp [Option.filter_eq_some_iff, accepts]

/-- A file that holds the record of one key holds none of another that has the same name for its file. -/
theorem recordIn_eq_none_of_stem {other : String} {record : Record}
    (h : c.recordIn w key = some record) (hstem : stem other = stem key) (hne : other ≠ key) :
    c.recordIn w other = none := by
  obtain ⟨bytes, hread, hrecord, -, hkey⟩ := recordIn_eq_some.1 h
  refine Option.eq_none_iff_forall_ne_some.2 fun found hfound => ?_
  obtain ⟨bytes', hread', hrecord', -, hother⟩ := recordIn_eq_some.1 hfound
  have hpath : c.recordPath other = c.recordPath key := by rw [recordPath, hstem, recordPath]
  rw [hpath, hread] at hread'
  cases hread'
  rw [hrecord] at hrecord'
  cases hrecord'
  exact hne (hother.symm.trans hkey)

/-- Two worlds in which the same can be read from a key's file have the same record of it. -/
theorem recordIn_congr {w' : World} (h : ∀ bytes,
    w'.disk.read w'.cwd (c.recordPath key) = .ok bytes ↔
      w.disk.read w.cwd (c.recordPath key) = .ok bytes) : c.recordIn w' key = c.recordIn w key := by
  ext record
  simp only [recordIn_eq_some, h]

/-- No two of these keys are confused: they have the same name for their files only if they are the same. -/
def KeptApart (key other : String) : Prop := stem key = stem other → key = other

/-- What is remembered of a key in a world. -/
def markIn (c : Cache) (w : World) (key : String) : Option (Goal × Fingerprint) :=
  (c.recordIn w key).map fun record => (record.goal, record.fingerprint)

theorem markIn_congr {w' : World} (h : c.recordIn w' key = c.recordIn w key) :
    c.markIn w' key = c.markIn w key := by
  rw [markIn, h, ← markIn]

end ParseGoal.Cache
