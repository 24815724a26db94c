import ParseGoal.Cache.Record
import ParseGoal.Proofs.Calendar.Text
import ParseGoal.Proofs.Json.RoundTrip
import ParseGoal.Proofs.Text.Utf8

/-! A record is read back from the file that it is stored in. -/
namespace ParseGoal

namespace Json

theorem natBelow?_ofNat {n bound : Nat} (h : n < bound) : natBelow? bound (ofNat n) = some n := by
  have hvalue : (Numeral.ofNat n).toNat? = some n := by
    rw [Numeral.toNat?, if_pos ⟨rfl, rfl, rfl⟩, Numeral.ofNat, Text.digitsValue_toDigits]
  rw [ofNat, natBelow?, hvalue]
  exact if_pos h

theorem text?_ofString (text : String) : (ofString text).text? = some text := rfl

end Json

namespace Record

theorem fingerprintOfJson?_fingerprintJson (f : Fingerprint) :
    fingerprintOfJson? (fingerprintJson f) = some f := by
  have hfields : (fingerprintJson f).fields? fingerprintNames =
      some [.ofString f.hash, .ofNat f.len.toNat] := rfl
  rw [fingerprintOfJson?, hfields, Option.bind_eq_bind, Option.bind_some]
  simp only [Json.text?_ofString, Json.natBelow?_ofNat f.len.toNat_lt_size, Option.bind_eq_bind,
    Option.bind_some, UInt64.ofNat_toNat, Option.pure_def]

theorem ofJson?_json (r : Record) : ofJson? r.json = some r := by
  have hfields : r.json.fields? names = some [.ofNat r.version.toNat, .ofString r.key,
      .ofString r.goal.name, fingerprintJson r.fingerprint,
      .ofString (String.ofList r.storedAt.text)] := rfl
  have hgoal : goalOfJson? (.ofString r.goal.name) = some r.goal := Goal.ofName?_name r.goal
  rw [ofJson?, hfields, Option.bind_eq_bind, Option.bind_some]
  simp only [Json.text?_ofString, Json.natBelow?_ofNat r.version.toNat_lt_size, hgoal,
    fingerprintOfJson?_fingerprintJson, String.toList_ofList, Instant.ofText?_text,
    Option.bind_eq_bind, Option.bind_some, UInt32.ofNat_toNat, Option.pure_def]

theorem isPlain_json (r : Record) : r.json.IsPlain :=
  ⟨rfl, ⟨_, rfl⟩, rfl, rfl, rfl, rfl, rfl, ⟨rfl, rfl, rfl, ⟨_, rfl⟩, trivial⟩, rfl, rfl, trivial⟩

/-- What a record's file holds is that record and no other. -/
theorem ofBytes?_text (r : Record) : ofBytes? (Utf8.ofString r.text) = some r := by
  rw [ofBytes?, Utf8.decode?_ofString, Option.bind_eq_bind, Option.bind_some, text,
    Json.read?_pretty _ (isPlain_json r), Option.bind_eq_bind, Option.bind_some, ofJson?_json]

end Record
end ParseGoal
