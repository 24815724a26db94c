import Mathlib.Order.Monotone.Basic
import ParseGoal.Ecma.Probe
import ParseGoal.Proofs.Ecma.Bounds
import ParseGoal.Proofs.Ecma.Splice
import ParseGoal.Proofs.Text.Position
import ParseGoal.Proofs.Text.Utf8

/-! What a text fails by, in view of the findings before it and of their offsets. -/
namespace ParseGoal.Ecma

namespace Scan

variable {s : Scan} {goal : Goal}

theorem findingsOf_after (earlier : List Finding) :
    (s.after earlier).findingsOf goal =
      earlier.filter (·.what.goal = goal) ++ s.findingsOf goal := by
  rw [findingsOf, findings_after, List.filter_append]
  rfl

/-- What is found first fails the text, if the fault comes later. -/
theorem violation?_of_head {r : Finding} (hhead : (s.findingsOf goal).head? = some r)
    (hfault : ∀ x ∈ s.fault, r.offset < x.offset) :
    s.violation? goal = some ⟨r.offset, .restriction r.what⟩ := by
  rw [violation?, hhead]
  cases hs : s.fault with
  | none => rfl
  | some x => simp only [if_pos (hfault x hs)]

theorem violation?_of_closed (h : s.fault = none) :
    s.violation? goal = (s.findingsOf goal).head?.map fun r => ⟨r.offset, .restriction r.what⟩ := by
  rw [violation?, h]
  cases (s.findingsOf goal).head? <;> rfl

theorem violation?_after_of_none {earlier : List Finding}
    (h : earlier.filter (·.what.goal = goal) = []) :
    (s.after earlier).violation? goal = s.violation? goal := by
  rw [violation?, findingsOf_after, h, violation?, fault_after, List.nil_append]

theorem violation?_eq_none_iff : s.violation? goal = none ↔ s.findingsOf goal = [] ∧ s.fault = none := by
  rw [violation?]
  cases s.fault <;> cases s.findingsOf goal <;> simp

/-- A violation is one of the findings or the fault. -/
theorem offset_of_violation? {P : Nat → Prop} (hfindings : ∀ x ∈ s.findings, P x.offset)
    (hfault : ∀ x ∈ s.fault, P x.offset) : ∀ v ∈ s.violation? goal, P v.offset := by
  have hhead : ∀ r ∈ (s.findingsOf goal).head?, P r.offset := fun r hr =>
    hfindings r (List.mem_filter.1 (List.mem_of_mem_head? hr)).1
  intro v hv
  rw [violation?] at hv
  cases hs : s.fault <;> cases hr : (s.findingsOf goal).head? <;>
    simp only [hs, hr, Option.mem_def, Option.some.injEq, reduceCtorEq] at hv
  · exact hv ▸ hhead _ hr
  · exact hv ▸ hfault _ hs
  · split at hv
    · exact hv ▸ hhead _ hr
    · exact hv ▸ hfault _ hs

/-- Moving all offsets that there are without changing their order moves the violation. -/
theorem violation?_relocate_on {f : Nat → Nat} {P : Nat → Prop}
    (hf : ∀ m n, P m → P n → (f m < f n ↔ m < n)) (hfindings : ∀ x ∈ s.findings, P x.offset)
    (hfault : ∀ x ∈ s.fault, P x.offset) :
    (s.relocate f).violation? goal = (s.violation? goal).map (Located.relocate f) := by
  have hmap : (s.relocate f).findingsOf goal = (s.findingsOf goal).map (Located.relocate f) :=
    List.filter_map ..
  rw [violation?, hmap, violation?]
  simp only [relocate, List.head?_map]
  cases hs : s.fault <;> cases hr : (s.findingsOf goal).head? <;> simp [Located.relocate]
  next x r =>
    have hlt := hf _ _ (hfindings r (List.mem_filter.1 (List.mem_of_mem_head? hr)).1) (hfault x hs)
    simp only [hlt]
    split <;> rfl

theorem violation?_relocate {f : Nat → Nat} (hf : StrictMono f) :
    (s.relocate f).violation? goal = (s.violation? goal).map (Located.relocate f) :=
  violation?_relocate_on (P := fun _ => True) (fun _ _ _ _ => hf.lt_iff_lt) (fun _ _ => trivial)
    fun _ _ => trivial

end Scan

theorem interpreterLine_append (text : List Char) :
    interpreterLine text ++ afterInterpreterLine text = text := by
  rw [interpreterLine, afterInterpreterLine]
  split
  · exact List.takeWhile_append_dropWhile
  · rfl

theorem byteSize_interpreterLine (text : List Char) :
    Text.byteSize (interpreterLine text) + Text.byteSize (afterInterpreterLine text) =
      Text.byteSize text := by
  rw [← Text.byteSize_append, interpreterLine_append]

theorem afterInterpreterLine_suffix (text : List Char) : afterInterpreterLine text <:+ text := by
  rw [afterInterpreterLine]
  split
  · exact List.dropWhile_suffix _
  · exact List.suffix_rfl

theorem Place.scan_start (text : List Char) : (start text).scan = Ecma.scan text := rfl

theorem Place.Visits.offset_le_byteSize {text : List Char} {p : Place} (h : Visits (start text) p) :
    p.offset ≤ Text.byteSize text := by
  have hsize : (start text).offset + Text.byteSize (start text).rest = Text.byteSize text :=
    byteSize_interpreterLine text
  obtain ⟨found, h⟩ := h
  obtain ⟨scanned, hrest, hoffset⟩ := h.exists_append
  rw [hrest, Text.byteSize_append] at hsize
  omega

/-- All that is found in a text stands at its characters. -/
theorem scan_starts (text : List Char) :
    (∀ x ∈ (scan text).findings, Starts 0 text x.offset) ∧
      ∀ x ∈ (scan text).fault, Starts 0 text x.offset := by
  have hwhole (n : Nat) (hn : Starts (Text.byteSize (interpreterLine text)) (afterInterpreterLine text) n) :
      Starts 0 text n := by
    rw [← Nat.zero_add (Text.byteSize _)] at hn
    exact interpreterLine_append text ▸ hn.append_right
  obtain ⟨hfindings, hfault⟩ := scanFrom_starts (P := Starts 0 text) {}
    (Text.byteSize (interpreterLine text)) (afterInterpreterLine text)
  exact ⟨fun x hx => hwhole _ (hfindings x hx), hfault nofun hwhole⟩

/-- What a text fails by stands at a character of it. -/
theorem starts_of_violation? {text : List Char} {goal : Goal} {v : Located Violation}
    (h : (scan text).violation? goal = some v) : Starts 0 text v.offset :=
  Scan.offset_of_violation? (scan_starts text).1 (scan_starts text).2 v h

theorem offset_lt_of_scan (text : List Char) (goal : Goal) :
    ∀ v ∈ (scan text).violation? goal, v.offset < Text.byteSize text := fun v hv => by
  have hlt := (starts_of_violation? hv).lt
  rwa [Nat.zero_add] at hlt

theorem judge_eq_ok_iff {text : List Char} {goal : Goal} :
    judge text goal = .ok () ↔ (scan text).violation? goal = none := by
  rw [judge]
  cases (scan text).violation? goal <;> simp

theorem judge_eq_error_iff {text : List Char} {goal : Goal} {failure : Failure} :
    judge text goal = .error failure ↔ ∃ v, (scan text).violation? goal = some v ∧
      ⟨.ofOffset text v.offset, v.what.message⟩ = failure := by
  rw [judge]
  cases (scan text).violation? goal <;> simp

theorem probe_encode (text : List Char) (goal : Goal) :
    probe.attempt (Utf8.encode text) goal = judge text goal := by
  simp only [probe, Utf8.decode_encode]

end ParseGoal.Ecma
