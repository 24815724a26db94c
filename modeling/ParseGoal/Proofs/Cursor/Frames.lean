import ParseGoal.Proofs.Cursor.Violations
import ParseGoal.Proofs.Ecma.Arrow
import ParseGoal.Proofs.Ecma.Nesting

/-!
The open brackets and arrows that a scan remembers, wherever its loop stands. The brackets are in the order of
the text, each at the byte that opened it, and so a report of a bracket or template that is never closed is
at the character that it names. No arrow starts deeper than the brackets that are open.
-/
namespace ParseGoal.Ecma

/-- The character that stands where it opens: of a substitution, the backtick of its template. -/
def Enclosure.mark : Enclosure → Char
  | .substitution => '\x60'
  | enclosure => enclosure.delimiter.opener

/-- The character that a report of something left open names. -/
def Fault.mark? : Fault → Option Char
  | .openTemplate => some '\x60'
  | .unclosed d => some d.opener
  | _ => none

theorem Enclosure.mark_of_ne {e : Enclosure} (h : e ≠ .substitution) : e.mark = e.delimiter.opener := by
  cases e with
  | substitution => exact absurd rfl h
  | _ => rfl

theorem Enclosure.toNat_mark_lt (e : Enclosure) : e.mark.toNat < 0x80 := by
  cases e <;> decide

/-! What a lexeme does to the open brackets. -/

/--
What a lexeme that starts with `c` does to the open brackets: it keeps them, closes the innermost one, or
opens one where it starts.
-/
inductive Frame.Shift (c : Char) (start : Nat) : List Frame → List Frame → Prop
  | keep (frames : List Frame) : Frame.Shift c start frames frames
  | close (frame : Frame) (outer : List Frame) : Frame.Shift c start (frame :: outer) outer
  | opening (enclosure : Enclosure) (hmark : enclosure.mark = c) (frames : List Frame) :
    Frame.Shift c start frames (⟨enclosure, start⟩ :: frames)

namespace State

/-- What a lexeme that starts with `c` does to the open brackets and arrows. It starts at most one arrow. -/
structure Shift (c : Char) (start : Nat) (s next : State) : Prop where
  frames : Frame.Shift c start s.frames next.frames
  arrows : next.arrowDepths.Sublist (s.depth :: s.arrowDepths)

variable {s next : State} {start : Nat} {lexeme : Lexeme} {c : Char} {rest after : List Char}

theorem Shift.of_frames_eq (hframes : next.frames = s.frames)
    (harrows : next.arrowDepths.Sublist (s.depth :: s.arrowDepths)) : Shift c start s next where
  frames := hframes ▸ .keep _
  arrows := harrows

theorem substitution_of_context {frame : Frame} {outer : List Frame} (hframes : s.frames = frame :: outer)
    (h : s.context.inSubstitution = true) : frame.enclosure = .substitution := by
  simpa [State.context, hframes] using h

/-- A stretch of template characters keeps the brackets, or opens a substitution where its template starts. -/
theorem of_takeTemplate {stop : Option TemplateStop} (h : (s.takeTemplate start stop).next = .ok next) :
    (next.frames = s.frames ∨ next.frames = ⟨.substitution, start⟩ :: s.frames) ∧
      next.arrowDepths = s.arrowDepths := by
  cases stop with
  | none => cases h
  | some stop =>
    obtain rfl := Except.ok.inj h
    cases stop with
    | close => exact ⟨.inl rfl, rfl⟩
    | hole => exact ⟨.inr rfl, rfl⟩

theorem shift_opener (s : State) (start : Nat) (d : Delimiter) :
    Shift d.opener start s (s.takeOpener start d) := by
  obtain ⟨hdelimiter, hne⟩ := s.enclosureOf_delimiter d
  constructor
  · rw [frames_takeOpener]
    exact .opening _ ((Enclosure.mark_of_ne hne).trans (congrArg _ hdelimiter)) _
  · rw [takeOpener]
    split <;> exact List.sublist_cons_self ..

theorem shift_closer {d : Delimiter} (h : s.takeCloser start d = .ok next) : Shift c start s next := by
  unfold takeCloser at h
  split at h
  · cases h
  · next frame outer hframes =>
    split at h
    · obtain rfl := Except.ok.inj h
      exact ⟨hframes ▸ .close frame outer, List.filter_sublist.trans (List.sublist_cons_self ..)⟩
    · cases h

/-- The next substitution of a template takes the place of the one that closes. -/
theorem shift_templateTail {stop : Option TemplateStop} (hinside : s.context.inSubstitution = true)
    (h : (s.takeTail start stop).next = .ok next) : Shift c start s next := by
  unfold takeTail at h
  split at h
  · cases h
  · next frame outer hframes =>
    have hsubstitution : frame = ⟨.substitution, frame.start⟩ :=
      congrArg (Frame.mk · frame.start) (substitution_of_context hframes hinside)
    obtain ⟨hnext, harrows⟩ := of_takeTemplate h
    constructor
    · rw [hframes]
      rcases hnext with hclosed | hhole
      · exact hclosed ▸ .close frame outer
      · rw [hhole, ← hsubstitution]
        exact .keep _
    · exact harrows ▸ List.filter_sublist.trans (List.sublist_cons_self ..)

theorem shift_take (htells : lexeme.Tells s.context c rest) (h : (s.take start lexeme after).next = .ok next) :
    Shift c start s next := by
  have hsame : s.arrowDepths.Sublist (s.depth :: s.arrowDepths) := List.sublist_cons_self ..
  cases lexeme with
  | opener d =>
    obtain rfl : c = d.opener := htells
    exact Except.ok.inj h ▸ s.shift_opener start d
  | closer d => exact shift_closer h
  | template stop =>
    obtain rfl : c = '\x60' := htells
    obtain ⟨hkept | hhole, harrows⟩ := of_takeTemplate h
    · exact .of_frames_eq hkept (harrows ▸ hsame)
    · refine ⟨?_, harrows ▸ hsame⟩
      rw [hhole]
      exact .opening .substitution rfl _
  | templateTail stop => exact shift_templateTail htells h
  | arrow =>
    obtain rfl := Except.ok.inj h
    split
    · exact .of_frames_eq rfl hsame
    · exact .of_frames_eq rfl (.refl _)
  | punctuator d =>
    obtain rfl := Except.ok.inj h
    split
    · exact .of_frames_eq rfl (List.filter_sublist.trans hsame)
    · exact .of_frames_eq rfl hsame
  | word text =>
    obtain rfl := Except.ok.inj h
    rw [afterWord]
    split <;> exact .of_frames_eq rfl hsame
  | blockComment multiline =>
    obtain rfl := Except.ok.inj h
    cases multiline <;> exact .of_frames_eq rfl hsame
  | lineBreak | blank | lineComment | htmlComment | string parts | regex | number legacy | update =>
    exact Except.ok.inj h ▸ .of_frames_eq rfl hsame
  | openComment | openString parts | openRegex => cases h

end State

/-- Open brackets, innermost first, in a scan over the bytes `b` that has come to `pos`. -/
structure Frame.InOrder (b : Bytes) (pos : Nat) (frames : List Frame) : Prop where
  /-- An inner bracket is further on than the brackets around it. -/
  starts : frames.Pairwise fun inner outer => outer.start < inner.start
  behind : ∀ frame ∈ frames, frame.start < pos
  marked : ∀ frame ∈ frames, b[frame.start]? = some (byte frame.enclosure.mark)

/-- The open brackets and arrows of a state, in a scan over the bytes `b` that has come to `pos`. -/
structure State.IsOrdered (b : Bytes) (pos : Nat) (s : State) : Prop where
  frames : Frame.InOrder b pos s.frames
  /-- A later arrow is at least as deep as those before it that are still open. -/
  arrows : s.arrowDepths.Pairwise fun later earlier => earlier ≤ later
  bounded : ∀ depth ∈ s.arrowDepths, depth ≤ s.depth

/-- If the fault is something left open, the byte there is that of the character it names. -/
def Located.IsMarked (b : Bytes) (x : Located Fault) : Prop :=
  ∀ c ∈ x.what.mark?, b[x.offset]? = some (byte c)

section

variable {b : Bytes} {pos stop : Nat} {c : Char} {rest : List Char} {x : Located Fault}

theorem Located.IsMarked.of_some (hmark : x.what.mark? = some c) (hbyte : b[x.offset]? = some (byte c)) :
    x.IsMarked b := by
  intro d hd
  obtain rfl := Option.some.inj (hmark.symm.trans hd)
  exact hbyte

theorem Located.IsMarked.of_none (hmark : x.what.mark? = none) : x.IsMarked b := by
  intro d hd
  cases hmark.symm.trans hd

theorem Cursor.Reads.getElem?_mark {e : Enclosure} (h : Reads b pos (e.mark :: rest)) :
    b[pos]? = some (byte e.mark) :=
  h.get.trans (firstByte_ascii e.toNat_mark_lt rest)

theorem Frame.InOrder.shift {before after : List Frame} (h : Frame.InOrder b pos before)
    (hreads : Cursor.Reads b pos (c :: rest)) (hshift : Frame.Shift c pos before after) (hstop : pos < stop) :
    Frame.InOrder b stop after := by
  have hbehind (frame : Frame) (hframe : frame ∈ before) : frame.start < stop :=
    (h.behind frame hframe).trans hstop
  cases hshift with
  | keep => exact ⟨h.starts, hbehind, h.marked⟩
  | close frame =>
    obtain ⟨-, hbehind⟩ := List.forall_mem_cons.1 hbehind
    obtain ⟨-, hmarked⟩ := List.forall_mem_cons.1 h.marked
    exact ⟨h.starts.tail, hbehind, hmarked⟩
  | opening enclosure hmark =>
    subst hmark
    constructor
    · exact .cons h.behind h.starts
    · exact List.forall_mem_cons.2 ⟨hstop, hbehind⟩
    · exact List.forall_mem_cons.2 ⟨hreads.getElem?_mark, h.marked⟩

end

namespace State.IsOrdered

variable {b : Bytes} {pos stop : Nat} {s next : State} {c : Char} {rest : List Char}

theorem start (b : Bytes) (pos : Nat) : ({} : State).IsOrdered b pos where
  frames := ⟨.nil, nofun, nofun⟩
  arrows := .nil
  bounded := nofun

/-- One lexeme on. -/
theorem take (hs : s.IsOrdered b pos) (hreads : Cursor.Reads b pos (c :: rest))
    (h : (s.take pos (cut s.context c rest).lexeme (cut s.context c rest).rest).next = .ok next)
    (hstop : pos < stop) : next.IsOrdered b stop where
  frames := hs.frames.shift hreads (State.shift_take (tells_cut ..) h).frames hstop
  arrows := (List.pairwise_cons.2 ⟨hs.bounded, hs.arrows⟩).sublist (State.shift_take (tells_cut ..) h).arrows
  bounded := by
    generalize cut s.context c rest = piece at h
    have htake : s.take pos piece.lexeme piece.rest =
        ⟨(s.take pos piece.lexeme piece.rest).findings, .ok next⟩ := by rw [← h]
    exact (State.take_arrows htake).2 hs.bounded

theorem isMarked_unclosed? (hs : s.IsOrdered b pos) : ∀ x ∈ s.unclosed?, x.IsMarked b := by
  intro x hx
  obtain ⟨frame, hframe, rfl⟩ := Option.map_eq_some_iff.1 hx
  have hmarked := hs.frames.marked frame (List.mem_of_mem_head? hframe)
  split
  · next hsubstitution =>
    rw [hsubstitution] at hmarked
    exact .of_some rfl hmarked
  · next hne =>
    rw [Enclosure.mark_of_ne hne] at hmarked
    exact .of_some rfl hmarked

/-- A template that a lexeme leaves open is at its backtick. -/
theorem isMarked_take (hs : s.IsOrdered b pos) (hreads : Cursor.Reads b pos (c :: rest)) {x : Located Fault}
    (h : (s.take pos (cut s.context c rest).lexeme (cut s.context c rest).rest).next = .error x) :
    x.IsMarked b := by
  have htells := tells_cut s.context c rest
  generalize (cut s.context c rest).lexeme = lexeme at h htells
  cases lexeme with
  | template stop =>
    obtain rfl : c = '\x60' := htells
    cases stop with
    | none =>
      obtain rfl := Except.error.inj h
      exact .of_some rfl (hreads.getElem?_mark (e := .substitution))
    | some stop => cases h
  | templateTail stop =>
    simp only [State.take, takeTail] at h
    split at h
    · exact Except.error.inj h ▸ .of_none rfl
    · next frame outer hframes =>
      cases stop with
      | none =>
        obtain rfl := Except.error.inj h
        have hmarked := hs.frames.marked frame (hframes ▸ List.mem_cons_self)
        rw [substitution_of_context hframes htells] at hmarked
        exact .of_some rfl hmarked
      | some stop => cases h
  | closer d =>
    simp only [State.take, takeCloser] at h
    split at h
    · exact Except.error.inj h ▸ .of_none rfl
    · split at h
      · cases h
      · exact Except.error.inj h ▸ .of_none rfl
  | openComment | openString parts | openRegex => exact Except.error.inj h ▸ .of_none rfl
  | _ => cases h

end State.IsOrdered

theorem isMarked_scanFrom {b : Bytes} {s : State} {offset : Nat} {text : List Char} (hs : s.IsOrdered b offset)
    (h : Cursor.Reads b offset text) : ∀ x ∈ (scanFrom s offset text).fault, x.IsMarked b := by
  fun_induction scanFrom s offset text with
  | case1 => exact hs.isMarked_unclosed?
  | case2 s offset c rest piece turn fault hfault =>
    intro x hx
    obtain rfl := Option.some.inj hx
    exact hs.isMarked_take h hfault
  | case3 s offset c rest piece turn next hnext ih =>
    have hpos : 0 < Text.byteSize piece.text := byteSize_cut_pos ..
    apply ih
    · exact hs.take h hnext (by omega)
    · exact Cursor.Reads.append ((cut_append s.context c rest).symm ▸ h)

/-! What a report names. -/

/-- The message of a fault tells what it names. -/
theorem Fault.mark?_eq (x : Fault) :
    let named := [openTemplate, unclosed .round, unclosed .square, unclosed .curly]
    x.mark? = (named.find? (·.message == x.message)).bind mark? := by
  cases x with
  | unclosed d | unexpected d => cases d <;> decide
  | mismatched d e => cases d <;> cases e <;> decide
  | _ => decide

theorem Fault.mark?_of_message {x y : Fault} (h : x.message = y.message) : x.mark? = y.mark? := by
  rw [x.mark?_eq, y.mark?_eq, h]

theorem Fault.head?_message (x : Fault) : x.message.toList.head? = some 'u' := by
  cases x <;> simp [message, toString]

theorem Restriction.head?_message (r : Restriction) : r.message.toList.head? ≠ some 'u' := by
  cases r <;> simp [message, toString]

/-- A report of a bracket or template that is left open is at the character that it names. -/
theorem marked_of_failure {text : List Char} {goal : Goal} {failure : Failure}
    (h : probe.attempt (Utf8.encode text) goal = .error failure) {fault : Fault} {c : Char}
    (hmark : c ∈ fault.mark?) (hmessage : failure.reason = fault.message) :
    failure.position = .ofOffset text failure.position.offset ∧
      (Utf8.encode text)[failure.position.offset]? = some (byte c) := by
  rw [probe_encode] at h
  obtain ⟨v, hv, rfl⟩ := judge_eq_error_iff.1 h
  have hoffset : (Position.ofOffset text v.offset).offset = v.offset :=
    Position.offset_ofOffset (offset_lt_of_scan text goal v hv).le
  dsimp only at hmessage ⊢
  rw [hoffset]
  refine ⟨rfl, ?_⟩
  have hfirst := (scan_isOrdered text).isFirst_of_violation? hv
  obtain ⟨r, -, rfl⟩ | ⟨x, hx, rfl⟩ := Scan.mem_violations.1 hfirst.1
  · have hhead := congrArg (fun message : String => message.toList.head?) hmessage
    exact absurd (hhead.trans fault.head?_message) r.what.head?_message
  · have hmarked := isMarked_scanFrom (.start _ _) (Cursor.reads_start text) x hx
    exact hmarked c ((Fault.mark?_of_message hmessage).trans hmark)

namespace Cursor

variable {b : Bytes} {m next : Cursor} {text : List Char}

/-- A step that goes on is over a character, and takes a lexeme. -/
theorem exists_take (h : Reads b m.pos text) (hstep : m.step b = some (.ok next)) : ∃ c rest, text = c :: rest ∧
    (m.state.take m.pos (cut m.state.context c rest).lexeme (cut m.state.context c rest).rest).next =
      .ok next.state ∧ m.pos < next.pos := by
  cases text with
  | nil =>
    rw [Cursor.step, h.getElem?_end] at hstep
    cases hstep
  | cons c rest =>
    have htakes := step_takes h
    cases hnext : (m.state.take m.pos (cut m.state.context c rest).lexeme
      (cut m.state.context c rest).rest).next with
    | error fault =>
      obtain ⟨last, heq, -⟩ := htakes.of_error hnext
      cases heq.symm.trans hstep
    | ok s =>
      obtain ⟨moved, heq, rfl, hpos, -⟩ := htakes.of_ok hnext
      obtain rfl := Except.ok.inj (Option.some.inj (heq.symm.trans hstep))
      exact ⟨c, rest, rfl, hnext, hpos ▸ Nat.lt_add_of_pos_right (byteSize_cut_pos ..)⟩

theorem Visits.isOrdered (h : Visits (Utf8.encode text) m) :
    m.state.IsOrdered (Utf8.encode text) m.pos := by
  induction h with
  | start h =>
    obtain rfl := Option.some.inj (h.symm.trans (start_eq text))
    exact .start _ _
  | step h hstep ih =>
    obtain ⟨rest, hreads⟩ := h.reads
    obtain ⟨c, rest, rfl, htake, hlt⟩ := exists_take hreads hstep
    exact ih.take hreads htake hlt

/-- The loop of the scan stands at every place that the scan comes to. -/
theorem Visits.of_reaches {p q : Place} {found : List Finding} (h : Place.Reaches p found q)
    (hvisits : Visits (Utf8.encode text) m) (hreads : Reads (Utf8.encode text) m.pos p.rest)
    (hstate : m.state = p.state) (hpos : m.pos = p.offset) :
    ∃ last, Visits (Utf8.encode text) last ∧ last.state = q.state ∧ last.pos = q.offset := by
  induction h generalizing m with
  | refl => exact ⟨m, hvisits, hstate, hpos⟩
  | step hstep _ ih =>
    obtain ⟨rfl, htake⟩ := hstep
    subst hstate hpos
    obtain ⟨moved, hmoved, hstate, hpos, -⟩ := (step_takes hreads).of_ok (congrArg Turn.next htake)
    exact ih (hvisits.step hmoved) (hpos ▸ reads_cut _ hreads) hstate hpos

/--
Wherever the loop of a scan stands, the open brackets are in the order of the text and behind it, each at the
byte that opened it, and the depths of the open arrows do not decrease and are none above that of the brackets.
A report of a bracket or template that is left open is at the character that it names.
-/
theorem isOrdered_of_visits (text : List Char) :
    (∀ m, Visits (Utf8.encode text) m → m.state.IsOrdered (Utf8.encode text) m.pos) ∧
      ∀ goal failure, probe.attempt (Utf8.encode text) goal = .error failure →
        ∀ fault : Fault, ∀ c ∈ fault.mark?, failure.reason = fault.message →
          failure.position = .ofOffset text failure.position.offset ∧
            (Utf8.encode text)[failure.position.offset]? = some (byte c) :=
  ⟨fun _ hvisits => hvisits.isOrdered, fun _ _ hfailure _ _ hmark hmessage =>
    marked_of_failure hfailure hmark hmessage⟩

/-- In the second substitution of a template, where a bracket and the body of an arrow are open. -/
theorem isOrdered_of_visits_of_template : ∃ m, Visits (Utf8.ofString "\x60$\x7ba\x7d$\x7b(x => [") m ∧
    m.state.frames = [⟨.list, 13⟩, ⟨.group, 7⟩, ⟨.substitution, 0⟩] ∧ m.state.arrowDepths = [2] ∧
    m.state.IsOrdered (Utf8.ofString "\x60$\x7ba\x7d$\x7b(x => [") m.pos ∧
    probe.attempt (Utf8.ofString "\x60$\x7ba\x7d$\x7b(x => [") .module =
      .error ⟨⟨1, 14, 13⟩, "unclosed '['"⟩ ∧
    (Utf8.ofString "\x60$\x7ba\x7d$\x7b(x => [")[13]? = some (byte '[') := by
  let text : List Char := "\x60$\x7ba\x7d$\x7b(x => [".toList
  obtain ⟨hvisits, hreports⟩ := isOrdered_of_visits text
  have hreaches : Place.Reaches (Place.start text) [] ⟨{
      frames := [⟨.list, 13⟩, ⟨.group, 7⟩, ⟨.substitution, 0⟩]
      previous := some (.punctuator '[')
      lineStart := false
      arrowDepths := [2] }, 14, []⟩ := by
    have htext : text = ['\x60', '$', '{', 'a', '}', '$', '{', '(', 'x', ' ', '=', '>', ' ', '['] := by decide
    rw [htext]
    refine .quiet rfl rfl (.quiet rfl rfl (.quiet rfl rfl (.quiet rfl rfl (.quiet rfl rfl ?_))))
    exact .quiet rfl rfl (.quiet rfl rfl (.quiet rfl rfl (.quiet rfl rfl (.refl _))))
  obtain ⟨m, hm, hstate, -⟩ := Visits.of_reaches hreaches (.start (start_eq text)) (reads_start text) rfl rfl
  have hviolation : (scan text).violation? .module = some ⟨13, .fault (.unclosed .square)⟩ := by decide +kernel
  have hfailure : probe.attempt (Utf8.encode text) .module = .error ⟨⟨1, 14, 13⟩, "unclosed '['"⟩ := by
    rw [probe_encode, judge, hviolation]
    rfl
  exact ⟨m, hm, by rw [hstate], by rw [hstate], hvisits m hm, hfailure,
    (hreports .module _ hfailure (.unclosed .square) '[' rfl rfl).2⟩

end Cursor
end ParseGoal.Ecma
