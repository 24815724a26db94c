import ParseGoal.Proofs.Cursor.Step
import ParseGoal.Proofs.Ecma.Verdict

/-!
For any bytes the scan over them ends, and nothing on its way is out of range or off the boundaries of
characters.
-/
namespace ParseGoal.Ecma.Cursor

variable {b : Bytes} {m : Cursor} {c : Char} {text rest : List Char}

/-! One step. -/

theorem reads_cut (context : Context) (h : Reads b m.pos (c :: rest)) :
    Reads b (m.pos + Text.byteSize (cut context c rest).text) (cut context c rest).rest :=
  Reads.append ((cut_append context c rest).symm ▸ h)

section

variable {piece : Cut} {outcome : Option Outcome} (h : Takes m piece outcome)

include h

/-- Behind a lexeme, with what it runs into. -/
theorem Takes.of_ok {next : State}
    (hnext : (m.state.take m.pos piece.lexeme piece.rest).next = .ok next) : ∃ moved : Cursor,
      outcome = some (.ok moved) ∧ moved.state = next ∧
      moved.pos = m.pos + Text.byteSize piece.text ∧ ∀ goal, moved.errorOf goal =
        (m.recordAll (m.state.take m.pos piece.lexeme piece.rest).findings).errorOf goal := by
  rw [Takes, Follows, hnext] at h
  exact ⟨_, h, rfl, rfl, fun goal => by cases goal <;> rfl⟩

/-- At the fault that a lexeme is, with what it runs into. -/
theorem Takes.of_error {fault : Located Fault}
    (hfault : (m.state.take m.pos piece.lexeme piece.rest).next = .error fault) : ∃ last : Cursor,
      outcome = some (.error (last, fault)) ∧
        Runs m (m.state.take m.pos piece.lexeme piece.rest).findings last := by
  rwa [Takes, Follows, hfault] at h

end

/-- A step at a character has an outcome. If that is a cursor, it is further on and at a character again. -/
theorem exists_step (h : Reads b m.pos (c :: rest)) : ∃ outcome, m.step b = some outcome ∧
    ∀ next, outcome = .ok next → m.pos < next.pos ∧ ∃ after, Reads b next.pos after := by
  have hstep := step_takes h
  cases hturn : (m.state.take m.pos (cut m.state.context c rest).lexeme
    (cut m.state.context c rest).rest).next with
  | error fault =>
    obtain ⟨last, houtcome, -⟩ := hstep.of_error hturn
    refine ⟨_, houtcome, fun next hnext => ?_⟩
    cases hnext
  | ok s =>
    obtain ⟨moved, houtcome, -, hpos, -⟩ := hstep.of_ok hturn
    refine ⟨_, houtcome, fun next hnext => ?_⟩
    obtain rfl := Except.ok.inj hnext
    rw [hpos]
    exact ⟨Nat.lt_add_of_pos_right (byteSize_cut_pos ..), _, reads_cut _ h⟩

/-! Whole runs. -/

theorem errorOf_record (m : Cursor) (x : Finding) (goal : Goal) : (m.record x).errorOf goal =
    (m.errorOf goal <|> if x.what.goal = goal then some x else none) := by
  unfold record
  cases hx : x.what.goal <;> cases goal <;> simp [errorOf]

/-- The first of some findings under a goal stays the first. -/
theorem errorOf_recordAll (m : Cursor) (found : List Finding) (goal : Goal) :
    (m.recordAll found).errorOf goal =
      (m.errorOf goal <|> (found.filter (·.what.goal = goal)).head?) := by
  induction found generalizing m with
  | nil => simp [recordAll]
  | cons x found ih =>
    rw [recordAll_cons, ih, errorOf_record, List.filter_cons]
    by_cases hx : x.what.goal = goal
    · simp [hx]
    · simp [hx]

theorem run_eq (h : Reads b m.pos text) :
    ∃ last, m.run b = some (last, (scanFrom m.state m.pos text).fault) ∧
      Runs m (scanFrom m.state m.pos text).findings last := by
  generalize hs : m.state = s, hoffset : m.pos = offset at h
  fun_induction scanFrom s offset text generalizing m with
  | case1 =>
    subst hs hoffset
    refine ⟨m, ?_, .refl m⟩
    rw [run, if_neg h.not_lt_length]
  | case2 s offset c rest piece turn fault =>
    rename_i hturn
    subst hs hoffset
    obtain ⟨last, hstep, hlast⟩ := (step_takes h).of_error hturn
    refine ⟨last, ?_, hlast⟩
    rw [run, if_pos h.lt_length, hstep]
    rfl
  | case3 s offset c rest piece turn next hturn =>
    rename_i ih
    subst hs hoffset
    obtain ⟨moved, hstep, hstate, hpos, herror⟩ := (step_takes h).of_ok hturn
    obtain ⟨last, hrun, hlast⟩ := ih hstate hpos (reads_cut m.state.context h)
    have hle := hlast.le_pos
    refine ⟨last, ?_, fun goal => ?_, by omega, fun x hx => ?_⟩
    · rw [run, if_pos h.lt_length, hstep]
      exact hrun
    · rw [hlast.errorOf goal, errorOf_recordAll, herror, ← errorOf_recordAll, ← recordAll_append,
        Scan.findings_after]
    · rcases List.mem_append.1 hx with hx | hx
      · have hlt := (starts_of_mem_take hx).lt
        omega
      · exact hlast.lt_pos x hx

/-- The scan of a text starts behind the line that names an interpreter. -/
theorem start_eq (text : List Char) :
    start (Utf8.encode text) = some { pos := (Place.start text).offset } := by
  have hstarts : (Utf8.ofString "#!").isPrefixOf (Utf8.encode text) = ['#', '!'].isPrefixOf text := by
    rw [Bool.eq_iff_iff, List.isPrefixOf_iff_prefix, List.isPrefixOf_iff_prefix]
    exact Utf8.prefix_encode_iff
  rw [start, hstarts, Place.start, interpreterLine]
  by_cases h : ['#', '!'].isPrefixOf text = true
  · rw [if_pos h, if_pos h, skipLine_eq (Reads.start text), Nat.zero_add]
    rfl
  · rw [if_neg h, if_neg h]
    rfl

theorem reads_start (text : List Char) :
    Reads (Utf8.encode text) (Place.start text).offset (Place.start text).rest :=
  ⟨interpreterLine text, by rw [Place.start, interpreterLine_append], rfl⟩

theorem earliest_eq (scan : Scan) (goal : Goal) :
    earliest scan.fault (scan.findingsOf goal).head? = scan.violation? goal := by
  rw [Scan.violation?]
  cases scan.fault <;> cases (scan.findingsOf goal).head? <;> rfl

/-- The scan over the bytes of a text keeps the first that each goal rejects, and ends behind all of it. -/
theorem exists_run (text : List Char) : ∃ last : Cursor,
    run (Utf8.encode text) { pos := (Place.start text).offset } = some (last, (scan text).fault) ∧
      (∀ goal, last.errorOf goal = ((scan text).findingsOf goal).head?) ∧
      ∀ x ∈ (scan text).findings, x.offset < last.pos := by
  obtain ⟨last, hrun, hlast⟩ := run_eq (m := { pos := (Place.start text).offset }) (reads_start text)
  have hscan : scanFrom {} (Place.start text).offset (Place.start text).rest = scan text := rfl
  rw [hscan] at hrun hlast
  refine ⟨last, hrun, fun goal => ?_, hlast.lt_pos⟩
  rw [hlast.errorOf, errorOf_recordAll]
  cases goal <;> rfl

theorem attempt_encode (text : List Char) (goal : Goal) :
    attempt (Utf8.encode text) goal = some (judge text goal) := by
  obtain ⟨last, hrun, herror, -⟩ := exists_run text
  rw [attempt, Utf8.decode_encode]
  simp only [Option.bind_eq_bind, start_eq, Option.bind_some, hrun, herror, earliest_eq]
  cases hviolation : (scan text).violation? goal with
  | none => simp only [judge, hviolation]
  | some violation => simp only [judge, hviolation]

/-- The probe over bytes always answers, and as the probe does. -/
theorem attempt_eq (source : Bytes) (goal : Goal) :
    attempt source goal = some (probe.attempt source goal) := by
  have hsource := Utf8.encode_decode source
  generalize hdecode : Utf8.decode source = found at hsource
  obtain ⟨text, _ | ⟨x, bad⟩⟩ := found
  · rw [← hsource, List.append_nil, attempt_encode, probe_encode]
  · have hsize : Text.byteSize text = (Utf8.encode text).length := (Utf8.length_encode text).symm
    have hwell : slice? source 0 (Text.byteSize text) = some (Utf8.encode text) := by
      rw [slice?, ← hsource, hsize, List.length_append, if_pos ⟨Nat.zero_le _, Nat.le_add_right ..⟩,
        List.take_left, List.drop_zero]
    rw [attempt, hdecode]
    simp only [probe, hdecode, hwell, Option.bind_eq_bind, Option.bind_some, Utf8.decode?_encode]
    rfl

/-! The cursors at which steps start. -/

/-- The cursors at which the loop of the scan stands. -/
inductive Visits (b : Bytes) : Cursor → Prop
  | start {m : Cursor} (h : start b = some m) : Visits b m
  | step {m next : Cursor} (h : Visits b m) (hstep : m.step b = some (.ok next)) : Visits b next

/-- A step that starts within the text, at a character, and ends at a fault or further on in the text. -/
structure Advances (b : Bytes) (m : Cursor) : Prop where
  boundary : isBoundary b m.pos = true
  character : ∃ c, charAt? b m.pos = some c
  step : ∃ outcome, m.step b = some outcome ∧
    ∀ next, outcome = .ok next → m.pos < next.pos ∧ next.pos ≤ b.length

theorem Visits.reads (h : Visits (Utf8.encode text) m) :
    ∃ rest, Reads (Utf8.encode text) m.pos rest := by
  induction h with
  | start h =>
    obtain rfl := Option.some.inj (h.symm.trans (start_eq text))
    exact ⟨_, reads_start text⟩
  | step h hstep ih =>
    obtain ⟨rest, hreads⟩ := ih
    cases rest with
    | nil =>
      rw [Cursor.step, hreads.getElem?_end] at hstep
      cases hstep
    | cons c rest =>
      obtain ⟨outcome, houtcome, hnext⟩ := exists_step hreads
      obtain rfl := Option.some.inj (houtcome.symm.trans hstep)
      exact (hnext _ rfl).2

theorem Reads.advances (h : Reads b m.pos (c :: rest)) : m.Advances b := by
  obtain ⟨outcome, houtcome, hnext⟩ := exists_step h
  refine ⟨h.isBoundary, ⟨c, h.charAt?⟩, outcome, houtcome, fun next heq => ?_⟩
  obtain ⟨hlt, after, hafter⟩ := hnext next heq
  have hlength := hafter.length_eq
  exact ⟨hlt, by omega⟩

/-- A failure is at a place in what is well formed of the source. -/
theorem exists_position {source : Bytes} {goal : Goal} {failure : Failure}
    (h : probe.attempt source goal = .error failure) :
    ∃ offset, failure.position = .ofOffset (Utf8.decode source).1 offset := by
  simp only [probe] at h
  generalize Utf8.decode source = found at h ⊢
  obtain ⟨text, _ | ⟨x, bad⟩⟩ := found
  · dsimp only [judge] at h
    split at h
    · exact ⟨_, (congrArg Failure.position (Except.error.inj h)).symm⟩
    · cases h
  · exact ⟨_, (congrArg Failure.position (Except.error.inj h)).symm⟩

end ParseGoal.Ecma.Cursor
