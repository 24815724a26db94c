import ParseGoal.Proofs.Cache.Lookup
import ParseGoal.Proofs.Cache.Record

/-! Finding a record in the file of a key, whatever record the file holds. -/
namespace ParseGoal.Cache

variable {c : Cache} {w : World} {key : String} {record : Record}

/-- Nothing about a record is lost in its file, so what the record says decides whether it is found. -/
theorem recordIn_of_read (h : w.disk.read w.cwd (c.recordPath key) = .ok (Utf8.ofString record.text)) :
    c.recordIn w key =
      if record.version = Record.currentVersion ∧ record.key = key then some record else none := by
  rw [recordIn_eq, h]
  dsimp only
  rw [Record.ofBytes?_text, Option.filter_some]
  simp only [accepts, decide_eq_true_eq]

/--
What is stored for a record is read back as this record. A lookup on a file that holds it finds it if it
is of the version that is understood and of the key that is looked up, and finds nothing otherwise.
-/
theorem lookup_text :
    (∀ record : Record, Record.ofBytes? (Utf8.ofString record.text) = some record) ∧
      ∀ (c : Cache) (w : World) (key : String) (record : Record),
        w.disk.read w.cwd (c.recordPath key) = .ok (Utf8.ofString record.text) →
          w.run (c.lookup key) =
            (if record.version = Record.currentVersion ∧ record.key = key then some record else none, w) := by
  refine ⟨Record.ofBytes?_text, fun c w key record hread => ?_⟩
  rw [run_lookup, recordIn_of_read hread]

/-- A record of a key that needs escapes, and of the greatest length. -/
theorem lookup_text_of_escapes :
    let record : Record := ⟨1, "\"\\\n\x01é😀", .module, ⟨"\x00", UInt64.ofNat (2 ^ 64 - 1)⟩, .epoch⟩
    let disk := (Disk.empty.put ["c"] .directory).put [stem record.key ++ ".json", "c"]
      (.file (Utf8.ofString record.text))
    (World.run { disk := disk } (lookup ⟨"/c"⟩ record.key)).1 = some record := by
  intro record disk
  have hread : disk.read [] (recordPath ⟨"/c"⟩ record.key) = .ok (Utf8.ofString record.text) := by
    decide +kernel
  rw [lookup_text.2 ⟨"/c"⟩ { disk := disk } record.key record hread, if_pos ⟨rfl, rfl⟩]

end ParseGoal.Cache
