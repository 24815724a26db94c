import ParseGoal.Proofs.Cursor.Run

/-!
The violations of a text, in the order of their offsets. What the scan keeps, the first that each goal
rejects, is enough to tell the first of all.
-/
namespace ParseGoal.Ecma

/-! The order of what a scan finds. -/

/-- Findings in the order of the text, and a fault at another place than any of them. -/
structure Scan.IsOrdered (s : Scan) : Prop where
  findings : s.findings.Pairwise fun x y => x.offset < y.offset
  fault : ∀ x ∈ s.fault, ∀ r ∈ s.findings, r.offset ≠ x.offset

section

variable {s : State} {start : Nat} {lexeme : Lexeme} {rest : List Char}

/-- A lexeme that is a fault runs into nothing at the place of the fault. -/
theorem State.fault_take_ne (hs : s.All (· < start)) {x : Located Fault}
    (hx : (s.take start lexeme rest).next = .error x) :
    ∀ r ∈ (s.take start lexeme rest).findings, r.offset ≠ x.offset := by
  have hfault := ((hs.imp fun _ => Nat.le_of_lt).take (Nat.le_refl start) lexeme rest).fault x hx
  intro r hr
  obtain hoctal | ⟨_, next, htake, -⟩ := s.offsets_take start lexeme rest
  · have hmem := List.mem_map_of_mem (f := Located.offset) hr
    rw [hoctal] at hmem
    have hle := (starts_octalOffsets hmem).le
    omega
  · rw [htake] at hx
    cases hx

/-- A lexeme opens no bracket where it runs into something. -/
theorem State.all_take_ne (hs : s.All (· < start)) {next : State}
    (hnext : (s.take start lexeme rest).next = .ok next) :
    ∀ r ∈ (s.take start lexeme rest).findings, next.All (· ≠ r.offset) := by
  intro r hr
  obtain hoctal | ⟨_, next', htake, hframes⟩ := s.offsets_take start lexeme rest
  · have hall := ((hs.imp fun _ => Nat.le_of_lt).take (Nat.le_refl start) lexeme rest).next next hnext
    have hmem := List.mem_map_of_mem (f := Located.offset) hr
    rw [hoctal] at hmem
    have hle := (starts_octalOffsets hmem).le
    exact hall.imp fun n hn => by omega
  · rw [htake] at hr hnext
    obtain rfl := List.mem_singleton.1 hr
    obtain rfl := Except.ok.inj hnext
    rw [State.All, hframes]
    exact hs.imp fun n hn => Nat.ne_of_lt hn

end

theorem scanFrom_isOrdered {s : State} {offset : Nat} {text : List Char} (hs : s.All (· < offset)) :
    (scanFrom s offset text).IsOrdered := by
  fun_induction scanFrom s offset text with
  | case1 s offset => exact ⟨.nil, fun x _ => List.forall_mem_nil _⟩
  | case2 s offset c rest piece turn fault hfault =>
    refine ⟨s.pairwise_take .., fun x hx => ?_⟩
    obtain rfl := Option.some.inj hx
    exact s.fault_take_ne hs hfault
  | case3 s offset c rest piece turn next hnext ih =>
    have hfirst (x : Finding) (hx : x ∈ turn.findings) : x.offset < offset + Text.byteSize piece.text :=
      (starts_of_mem_take hx).lt
    have hpos : 0 < Text.byteSize piece.text := byteSize_cut_pos ..
    have hall := ((hs.imp fun _ => Nat.le_of_lt).take (Nat.le_refl offset) piece.lexeme piece.rest).next
      next hnext
    have hordered := ih (hall.imp fun n hn => by omega)
    obtain ⟨hfindings, -⟩ := scanFrom_starts (P := fun _ => True) next
      (offset + Text.byteSize piece.text) piece.rest
    refine ⟨List.pairwise_append.2 ⟨s.pairwise_take .., hordered.findings, fun x hx y hy => ?_⟩,
      fun x hx r hr => ?_⟩
    · exact Nat.lt_of_lt_of_le (hfirst x hx) (hfindings y hy).le
    · rcases List.mem_append.1 hr with hr | hr
      · obtain ⟨-, hfault⟩ := scanFrom_starts (P := (· ≠ r.offset)) next
          (offset + Text.byteSize piece.text) piece.rest
        refine (hfault (s.all_take_ne hs hnext r hr) (fun n hn => ?_) x hx).symm
        have hlt := hfirst r hr
        have hle := hn.le
        omega
      · exact hordered.fault x hx r hr

theorem scan_isOrdered (text : List Char) : (scan text).IsOrdered := scanFrom_isOrdered nofun

/-! The first of all violations. -/

/-- All that a text fails by under a goal. -/
def Scan.violations (s : Scan) (goal : Goal) : List (Located Violation) :=
  ((s.findingsOf goal).map fun r => ⟨r.offset, .restriction r.what⟩) ++
    s.fault.toList.map fun x => ⟨x.offset, .fault x.what⟩

/-- The one violation that comes before all others. -/
def Located.IsFirst (v : Located Violation) (violations : List (Located Violation)) : Prop :=
  v ∈ violations ∧ ∀ w ∈ violations, w ≠ v → v.offset < w.offset

theorem Located.IsFirst.offset_le {v w : Located Violation} {violations : List (Located Violation)}
    (h : v.IsFirst violations) (hw : w ∈ violations) : v.offset ≤ w.offset := by
  by_cases hne : w = v
  · exact hne ▸ Nat.le_refl _
  · exact Nat.le_of_lt (h.2 w hw hne)

namespace Scan

variable {s : Scan} {goal : Goal}

theorem mem_violations {v : Located Violation} : v ∈ s.violations goal ↔
    (∃ r ∈ s.findingsOf goal, ⟨r.offset, .restriction r.what⟩ = v) ∨
      ∃ x ∈ s.fault, ⟨x.offset, .fault x.what⟩ = v := by
  simp [violations]

/-- The first finding and the fault are enough to tell the first violation. -/
theorem IsOrdered.isFirst_of_violation? (h : s.IsOrdered) {v : Located Violation}
    (hv : s.violation? goal = some v) : v.IsFirst (s.violations goal) := by
  have hfindings : (s.findingsOf goal).Pairwise fun x y => x.offset < y.offset :=
    h.findings.sublist List.filter_sublist
  have hfault (x : Located Fault) (hx : x ∈ s.fault) (r : Finding) (hr : r ∈ s.findingsOf goal) :
      r.offset ≠ x.offset := h.fault x hx r (List.mem_filter.1 hr).1
  rw [violation?] at hv
  simp only [Located.IsFirst, mem_violations]
  generalize s.findingsOf goal = found at hfindings hfault hv
  -- Findings come in order, so only the first of them and the fault may come before all others.
  cases found with
  | nil =>
    cases hs : s.fault with
    | none => simp [hs] at hv
    | some x =>
      obtain rfl : ⟨x.offset, .fault x.what⟩ = v := by simpa [hs] using hv
      simp
  | cons r later =>
    have hfirst (r' : Finding) (hr' : r' ∈ r :: later) : r' = r ∨ r.offset < r'.offset :=
      (List.mem_cons.1 hr').imp_right ((List.pairwise_cons.1 hfindings).1 r')
    cases hs : s.fault with
    | none =>
      obtain rfl : ⟨r.offset, .restriction r.what⟩ = v := by simpa [hs] using hv
      refine ⟨.inl ⟨r, List.mem_cons_self, rfl⟩, ?_⟩
      rintro w (⟨r', hr', rfl⟩ | ⟨x, hx, -⟩) hne
      · exact (hfirst r' hr').resolve_left fun heq => hne (heq ▸ rfl)
      · cases hx
    | some x =>
      have hne := hfault x hs r List.mem_cons_self
      simp only [hs, List.head?_cons, Option.some.injEq] at hv
      split at hv
      · next hlt =>
        subst hv
        refine ⟨.inl ⟨r, List.mem_cons_self, rfl⟩, ?_⟩
        rintro w (⟨r', hr', rfl⟩ | ⟨x', hx', rfl⟩) hne
        · exact (hfirst r' hr').resolve_left fun heq => hne (heq ▸ rfl)
        · obtain rfl := Option.some.inj hx'
          exact hlt
      · next hge =>
        subst hv
        refine ⟨.inr ⟨x, rfl, rfl⟩, ?_⟩
        rintro w (⟨r', hr', rfl⟩ | ⟨x', hx', rfl⟩) hne'
        · have hlt : x.offset < r.offset := by omega
          rcases hfirst r' hr' with rfl | hr'
          · exact hlt
          · exact hlt.trans hr'
        · obtain rfl := Option.some.inj hx'
          exact absurd rfl hne'

end Scan

/--
Each goal's violations are found in the order of their offsets, all of them behind the cursor when it
stops. A text passes if it has none, and otherwise fails by the first, wherever the fault among them is.
So a fault fails both goals, no later than where it is, and a text without restrictions passes or
fails under both goals alike.
-/
theorem attempt_first (text : List Char) : ∃ m last : Cursor,
    Cursor.start (Utf8.encode text) = some m ∧
    m.run (Utf8.encode text) = some (last, (scan text).fault) ∧
    (∀ goal, last.errorOf goal = ((scan text).findingsOf goal).head? ∧
      ((scan text).findingsOf goal).Pairwise (fun x y => x.offset < y.offset) ∧
      (∀ x ∈ (scan text).findingsOf goal, x.offset < last.pos) ∧
      (probe.attempt (Utf8.encode text) goal = .ok () ↔
        (scan text).findingsOf goal = [] ∧ (scan text).fault = none) ∧
      ∀ failure : Failure, probe.attempt (Utf8.encode text) goal = .error failure →
        ∃ v : Located Violation, v.IsFirst ((scan text).violations goal) ∧
          failure = ⟨.ofOffset text v.offset, v.what.message⟩ ∧ failure.position.offset = v.offset) ∧
    (∀ fault ∈ (scan text).fault, ∀ goal, ∃ failure : Failure,
      probe.attempt (Utf8.encode text) goal = .error failure ∧ failure.position.offset ≤ fault.offset) ∧
    ((∀ goal, (scan text).findingsOf goal = []) → ∀ goal goal' : Goal,
      probe.attempt (Utf8.encode text) goal = probe.attempt (Utf8.encode text) goal') := by
  have hordered := scan_isOrdered text
  have herror {goal : Goal} {v : Located Violation} (hv : (scan text).violation? goal = some v) :
      judge text goal = .error ⟨.ofOffset text v.offset, v.what.message⟩ :=
    judge_eq_error_iff.2 ⟨v, hv, rfl⟩
  have hoffset {goal : Goal} {v : Located Violation} (hv : (scan text).violation? goal = some v) :
      (Position.ofOffset text v.offset).offset = v.offset :=
    Position.offset_ofOffset (offset_lt_of_scan text goal v hv).le
  obtain ⟨last, hrun, hfirst, hlast⟩ := Cursor.exists_run text
  refine ⟨_, last, Cursor.start_eq text, hrun, fun goal => ⟨hfirst goal, ?_, ?_, ?_, ?_⟩, ?_, ?_⟩
  · exact hordered.findings.sublist List.filter_sublist
  · exact fun x hx => hlast x (List.mem_filter.1 hx).1
  · rw [probe_encode, judge_eq_ok_iff, Scan.violation?_eq_none_iff]
  · intro failure hfailure
    rw [probe_encode] at hfailure
    obtain ⟨v, hv, rfl⟩ := judge_eq_error_iff.1 hfailure
    exact ⟨v, hordered.isFirst_of_violation? hv, rfl, hoffset hv⟩
  · intro fault hfault goal
    obtain ⟨v, hv⟩ : ∃ v, (scan text).violation? goal = some v := by
      refine Option.ne_none_iff_exists'.1 fun hnone => ?_
      obtain ⟨-, hclosed⟩ := Scan.violation?_eq_none_iff.1 hnone
      exact absurd (hclosed ▸ hfault) nofun
    have hle := (hordered.isFirst_of_violation? hv).offset_le
      (Scan.mem_violations.2 (.inr ⟨fault, hfault, rfl⟩))
    exact ⟨_, (probe_encode text goal).trans (herror hv), (hoffset hv).trans_le hle⟩
  · intro hclean goal goal'
    have hsame : (scan text).violation? goal = (scan text).violation? goal' := by
      rw [Scan.violation?, Scan.violation?, hclean, hclean]
    rw [probe_encode, probe_encode, judge, judge, hsame]

/-- An open bracket far behind the cursor comes before an escape that was found first. -/
theorem attempt_first_of_unclosed : ∃ failure : Failure,
    probe.attempt (Utf8.ofString "[\"\\1\"") .module = .error failure ∧ failure.position.offset = 0 := by
  have hfault : (scan "[\"\\1\"".toList).fault = some ⟨0, .unclosed .square⟩ := by decide +kernel
  obtain ⟨m, last, -, -, -, hfails, -⟩ := attempt_first "[\"\\1\"".toList
  obtain ⟨failure, hfailure, hle⟩ := hfails _ hfault .module
  exact ⟨failure, hfailure, Nat.le_zero.1 hle⟩

end ParseGoal.Ecma
