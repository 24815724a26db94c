import Mathlib.Algebra.Group.Nat.Defs
import Mathlib.Order.Bounds.Basic
import ParseGoal.Proofs.Cursor.Reading
import ParseGoal.Proofs.Ecma.Verdict

/-! Where an attempt fails: inside the source and at a character, with line and column counted from its start. -/
namespace ParseGoal.Ecma

/--
A position inside a source, behind the characters `before`: lines are counted by the line feeds among
the bytes there, columns by the characters since the last of them.
-/
structure Locates (p : Position) (source : Bytes) (before : List Char) : Prop where
  inside : p.offset < source.length
  bytes : source.take p.offset = Utf8.encode before
  /-- In a text, whole characters follow too. -/
  whole : ∀ text, source = Utf8.encode text → ∃ c after, text = before ++ c :: after
  line : p.line = 1 + (source.take p.offset).count (byte '\n')
  column : p.column = 1 + (Position.lastLine before).length

/-- Neither line nor column is larger than the number of bytes. -/
theorem Locates.le_length {p : Position} {source : Bytes} {before : List Char} (h : Locates p source before) :
    p.line ≤ source.length ∧ p.column ≤ source.length := by
  have hinside := h.inside
  have hlength := congrArg List.length h.bytes
  rw [List.length_take, Utf8.length_encode, Nat.min_eq_left hinside.le] at hlength
  have hlines : (source.take p.offset).count (byte '\n') ≤ p.offset :=
    List.count_le_length.trans (List.length_take_le ..)
  have hcolumns : (Position.lastLine before).length ≤ before.length := by
    rw [Position.lastLine, List.length_reverse, ← @List.length_reverse _ before]
    exact (List.takeWhile_prefix _).length_le
  have hsize := Text.length_le_byteSize before
  rw [h.line, h.column]
  omega

theorem locates_ofOffset {source : Bytes} {before after : List Char}
    (hbytes : source.take (Text.byteSize before) = Utf8.encode before)
    (hinside : Text.byteSize before < source.length)
    (hwhole : ∀ text, source = Utf8.encode text → ∃ c more, text = before ++ c :: more) :
    Locates (.ofOffset (before ++ after) (Text.byteSize before)) source before := by
  have hcount : (Utf8.encode before).count (byte '\n') = before.count '\n' :=
    Cursor.count_encode (by decide) before
  rw [Position.ofOffset_byteSize]
  exact ⟨hinside, hbytes, hwhole, by rw [hbytes, hcount], rfl⟩

/-- A text fails at one of its characters. -/
theorem exists_locates_of_judge {text : List Char} {goal : Goal} {failure : Failure}
    (h : judge text goal = .error failure) : ∃ before, Locates failure.position (Utf8.encode text) before := by
  obtain ⟨v, hv, rfl⟩ := judge_eq_error_iff.1 h
  have hstarts := starts_of_violation? hv
  have hinside := hstarts.lt
  obtain ⟨before, after, rfl, hne, hoffset⟩ := hstarts
  obtain ⟨c, more, rfl⟩ := List.exists_cons_of_ne_nil hne
  rw [Nat.zero_add] at hoffset hinside
  rw [hoffset, ← Utf8.length_encode (before ++ c :: more)] at hinside
  rw [hoffset]
  refine ⟨before, locates_ofOffset ?_ hinside fun text htext => ⟨c, more, ?_⟩⟩
  · rw [Utf8.encode_append, Utf8.take_encode]
  · exact (Utf8.encode_injective htext).symm

/-- Bytes that are no text fail behind the longest beginning that is one. -/
theorem exists_locates_of_not_text {source : Bytes} (h : ¬ ∃ text, source = Utf8.encode text) :
    ∃ failure : Failure, (∀ goal, probe.attempt source goal = .error failure) ∧
      failure.reason = "source is not valid UTF-8" ∧
      failure.position.offset = Text.byteSize (Utf8.decode source).1 ∧
      Locates failure.position source (Utf8.decode source).1 := by
  have hsource := Utf8.encode_decode source
  simp only [probe]
  generalize Utf8.decode source = found at hsource ⊢
  obtain ⟨text, _ | ⟨x, bad⟩⟩ := found
  · rw [List.append_nil] at hsource
    exact absurd ⟨text, hsource.symm⟩ h
  · dsimp only at hsource
    have hbytes : source.take (Text.byteSize text) = Utf8.encode text := by
      rw [← hsource, Utf8.take_encode]
    have hinside : Text.byteSize text < source.length := by
      rw [← hsource, List.length_append, Utf8.length_encode, List.length_cons]
      omega
    have hlocates : Locates (.ofOffset (text ++ []) (Text.byteSize text)) source text :=
      locates_ofOffset hbytes hinside fun other hother => absurd ⟨other, hother⟩ h
    rw [List.append_nil] at hlocates
    exact ⟨_, fun _ => rfl, rfl, Position.offset_ofOffset (Nat.le_refl _), hlocates⟩

/--
Every failure is at a character inside the source, with its line and column. What is no text fails under
both goals alike, behind the longest beginning that is a text; nothing at all passes.
-/
theorem attempt_located {source : Bytes} (hlength : source.length < 2 ^ 32) :
    (∀ goal, ∀ failure : Failure, probe.attempt source goal = .error failure →
      (∃ before, Locates failure.position source before) ∧
        failure.position.line < 2 ^ 32 ∧ failure.position.column < 2 ^ 32) ∧
    ((¬ ∃ text, source = Utf8.encode text) → ∃ failure : Failure,
      (∀ goal, probe.attempt source goal = .error failure) ∧ failure.reason = "source is not valid UTF-8" ∧
        IsGreatest {n | n ≤ source.length ∧ ∃ text, source.take n = Utf8.encode text}
          failure.position.offset) ∧
    ∀ goal, probe.attempt [] goal = .ok () := by
  have hsmall {p : Position} {before : List Char} (h : Locates p source before) :
      (∃ before, Locates p source before) ∧ p.line < 2 ^ 32 ∧ p.column < 2 ^ 32 :=
    ⟨⟨before, h⟩, h.le_length.1.trans_lt hlength, h.le_length.2.trans_lt hlength⟩
  refine ⟨fun goal failure hfailure => ?_, fun h => ?_, fun goal => ?_⟩
  · by_cases h : ∃ text, source = Utf8.encode text
    · obtain ⟨text, rfl⟩ := h
      rw [probe_encode] at hfailure
      obtain ⟨before, hlocates⟩ := exists_locates_of_judge hfailure
      exact hsmall hlocates
    · obtain ⟨failure', hfailure', -, -, hlocates⟩ := exists_locates_of_not_text h
      obtain rfl : failure' = failure := Except.error.inj ((hfailure' goal).symm.trans hfailure)
      exact hsmall hlocates
  · obtain ⟨failure, hfailure, hreason, hoffset, -⟩ := exists_locates_of_not_text h
    exact ⟨failure, hfailure, hreason, hoffset ▸ Utf8.isGreatest_decode source⟩
  · refine (probe_encode [] goal).trans (judge_eq_ok_iff.2 ?_)
    cases goal <;> decide +kernel

/-- The first byte of a character without the second, at the start of the second line. -/
theorem attempt_located_of_truncated : ∃ failure : Failure,
    (∀ goal, probe.attempt (Utf8.ofString "'é\n" ++ [0xC3]) goal = .error failure) ∧
      failure.position.line = 2 ∧ failure.position.column = 1 ∧ failure.position.offset = 4 := by
  have hlength : (Utf8.ofString "'é\n" ++ [0xC3]).length < 2 ^ 32 := by decide
  have htext : ¬ ∃ text, Utf8.ofString "'é\n" ++ [0xC3] = Utf8.encode text := by
    rintro ⟨text, h⟩
    have hbad : (Utf8.decode (Utf8.ofString "'é\n" ++ [0xC3])).2 ≠ [] := by decide +kernel
    rw [h, Utf8.decode_encode] at hbad
    exact hbad rfl
  obtain ⟨hlocated, hsame, -⟩ := attempt_located hlength
  obtain ⟨failure, hfailure, -, hgreatest⟩ := hsame htext
  have hwell : Text.byteSize (Utf8.decode (Utf8.ofString "'é\n" ++ [0xC3])).1 = 4 := by decide +kernel
  have hoffset : failure.position.offset = 4 :=
    (hgreatest.unique (Utf8.isGreatest_decode _)).trans hwell
  obtain ⟨⟨before, hlocates⟩, -⟩ := hlocated .script failure (hfailure .script)
  have hbefore : before = "'é\n".toList := by
    refine Utf8.encode_injective (hlocates.bytes.symm.trans ?_)
    rw [hoffset]
    decide
  refine ⟨failure, hfailure, hlocates.line.trans ?_, hlocates.column.trans ?_, hoffset⟩
  · rw [hoffset]
    decide
  · rw [hbefore]
    decide

end ParseGoal.Ecma
