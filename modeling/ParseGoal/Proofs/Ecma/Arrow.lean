import ParseGoal.Proofs.Ecma.Operand

/-!
Arrows whose body is an expression. A scan takes what follows such an arrow for its body, up to the next comma or
semicolon at its depth or to the bracket that closes around it. The end of a statement at the end of its line is
not among these, and so an `await` on the next line still counts as inside.
-/
namespace ParseGoal.Ecma

/-- All arrows started at most as deep as the brackets that are still open. -/
def State.ArrowsBounded (s : State) : Prop := ∀ depth ∈ s.arrowDepths, depth ≤ s.depth

/-- What a lexeme does to open arrows if it neither starts nor ends one outside all brackets. -/
structure State.KeepsArrows (s next : State) : Prop where
  outermost : 0 ∈ next.arrowDepths ↔ 0 ∈ s.arrowDepths
  bounded : s.ArrowsBounded → next.ArrowsBounded

namespace State.KeepsArrows

variable {s next : State}

theorem of_eq (harrows : next.arrowDepths = s.arrowDepths) (hdepth : s.depth ≤ next.depth) :
    KeepsArrows s next where
  outermost := by rw [harrows]
  bounded h := by
    rw [ArrowsBounded, harrows]
    exact fun depth hmem => (h depth hmem).trans hdepth

/-- Behind a bracket, the arrows within it have ended. -/
theorem pop (frames : List Frame) :
    KeepsArrows s ({ s with frames := frames }.endArrows (frames.length + 1)) where
  outermost := by simp [endArrows]
  bounded _ depth hmem := by
    obtain ⟨-, hlt⟩ := List.mem_filter.1 hmem
    exact Nat.le_of_lt_succ (of_decide_eq_true hlt)

theorem afterToken (h : KeepsArrows s next) (token : Token) : KeepsArrows s (next.afterToken token) :=
  ⟨h.outermost, h.bounded⟩

theorem push (h : KeepsArrows s next) (enclosure : Enclosure) (start : Nat) :
    KeepsArrows s (next.push enclosure start) where
  outermost := h.outermost
  bounded hs depth hmem := (h.bounded hs depth hmem).trans (Nat.le_succ _)

end State.KeepsArrows

/-- Commas and semicolons: what ends the body of an arrow at its depth. -/
def Lexeme.separates : Lexeme → Bool
  | .punctuator c => c == ',' || c == ';'
  | _ => false

namespace State

variable {s next : State} {start : Nat} {lexeme : Lexeme} {rest : List Char} {found : List Finding}

theorem keepsArrows_template (hs : KeepsArrows s next) {t : State} {stop : Option TemplateStop}
    (h : next.takeTemplate start stop = ⟨found, .ok t⟩) : KeepsArrows s t := by
  cases stop with
  | none => cases h
  | some stop =>
    cases stop with
    | close =>
      cases h
      exact hs.afterToken _
    | hole =>
      cases h
      exact (hs.push _ _).afterToken _

theorem take_keepsArrows (h : s.take start lexeme rest = ⟨found, .ok next⟩)
    (harrow : lexeme ≠ .arrow) (hseparates : lexeme.separates = false) : KeepsArrows s next := by
  have hsame : KeepsArrows s s := .of_eq rfl le_rfl
  cases lexeme with
  | template stop => exact keepsArrows_template hsame h
  | templateTail stop =>
    rw [State.take, State.takeTail] at h
    split at h
    · cases h
    · next frame outer _ => exact keepsArrows_template (.pop outer) h
  | closer d =>
    simp only [State.take, State.takeCloser, Turn.mk.injEq] at h
    obtain ⟨-, h⟩ := h
    split at h
    · cases h
    · next frame outer _ =>
      split at h
      · cases h
        exact (KeepsArrows.pop outer).afterToken _
      · cases h
  | opener d =>
    cases h
    rw [State.takeOpener]
    split
    · have hcleared : KeepsArrows s { s with classDepth := none } := .of_eq rfl le_rfl
      exact (hcleared.push _ _).afterToken _
    · exact (hsame.push _ _).afterToken _
  | word text =>
    cases h
    rw [State.afterWord]
    split <;> exact .of_eq rfl le_rfl
  | blockComment multiline =>
    cases h
    cases multiline <;> exact .of_eq rfl le_rfl
  | arrow => exact absurd rfl harrow
  | punctuator c =>
    have hother : ¬ (c = ',' ∨ c = ';') := by simpa [Lexeme.separates] using hseparates
    rw [State.take, if_neg hother] at h
    cases h
    exact hsame.afterToken _
  | _ =>
    cases h
    try exact .of_eq rfl le_rfl

/-- Whether a lexeme is an arrow outside all brackets with an expression as its body. -/
def startsArrow (s : State) (piece : Cut) : Bool :=
  piece.lexeme == .arrow && s.frames.isEmpty && nextSignificant piece.rest != some '\x7b'

/-- Whether a lexeme is a comma or a semicolon outside all brackets. -/
def separates (s : State) (piece : Cut) : Bool := piece.lexeme.separates && s.frames.isEmpty

/-- An arrow outside all brackets is open behind a lexeme if the lexeme starts it, or if it was and still is. -/
theorem take_arrows {piece : Cut} (h : s.take start piece.lexeme piece.rest = ⟨found, .ok next⟩) :
    (0 ∈ next.arrowDepths ↔
      s.startsArrow piece = true ∨ 0 ∈ s.arrowDepths ∧ s.separates piece = false) ∧
      (s.ArrowsBounded → next.ArrowsBounded) := by
  obtain ⟨lexeme, text, rest⟩ := piece
  dsimp only at h
  have hdepth : s.frames.isEmpty = true ↔ s.depth = 0 := by simp [State.depth]
  -- Arrows and separators change which arrows are open outside all brackets; other lexemes keep them.
  by_cases harrow : lexeme = .arrow
  · subst harrow
    have hseparates : s.separates ⟨.arrow, text, rest⟩ = false := rfl
    have hstarts : s.startsArrow ⟨.arrow, text, rest⟩ = true ↔
        s.depth = 0 ∧ nextSignificant rest ≠ some '\x7b' := by
      simp [startsArrow, hdepth]
    rw [hseparates, hstarts]
    cases h
    split
    · next hbrace => simp [hbrace, afterToken, ArrowsBounded, depth]
    · next hbody =>
      refine ⟨by simp [hbody, afterToken, eq_comm], fun hs => List.forall_mem_cons.2 ⟨le_rfl, hs⟩⟩
  have hstarts : s.startsArrow ⟨lexeme, text, rest⟩ = false := by simp [startsArrow, harrow]
  cases hseparator : lexeme.separates with
  | true =>
    cases lexeme with
    | punctuator c =>
      have hc : c = ',' ∨ c = ';' := by simpa [Lexeme.separates] using hseparator
      have hopen : s.separates ⟨.punctuator c, text, rest⟩ = false ↔ 0 < s.depth := by
        simp [separates, hseparator, depth, List.length_pos_iff]
      rw [State.take, if_pos hc] at h
      cases h
      refine ⟨by simp [hstarts, hopen, afterToken, endArrows], fun hs depth hmem => ?_⟩
      exact hs depth (List.mem_filter.1 hmem).1
    | _ => cases hseparator
  | false =>
    have hkeeps := take_keepsArrows h harrow hseparator
    have hseparates : s.separates ⟨lexeme, text, rest⟩ = false := by simp [separates, hseparator]
    simpa [hstarts, hseparates, hkeeps.outermost] using hkeeps.bounded

end State

namespace Place

/-- At an arrow outside all brackets with an expression as its body. -/
def isBareArrow (p : Place) : Bool := p.meets State.startsArrow

/-- At a comma or a semicolon outside all brackets. -/
def isSeparator (p : Place) : Bool := p.meets State.separates

variable {p q r : Place} {found : List Finding}

theorem Step.arrows (h : Step p found q) :
    (0 ∈ q.state.arrowDepths ↔
      p.isBareArrow = true ∨ 0 ∈ p.state.arrowDepths ∧ p.isSeparator = false) ∧
    (p.state.ArrowsBounded → q.state.ArrowsBounded) := by
  obtain ⟨rfl, htake⟩ := h
  exact State.take_arrows htake

theorem isSeparator_of_isBareArrow (h : p.isBareArrow = true) : p.isSeparator = false := by
  rw [isBareArrow, meets] at h
  rw [isSeparator, meets]
  split at h
  · cases h
  · simp only [State.startsArrow, Bool.and_eq_true, beq_iff_eq] at h
    rw [State.separates, h.1.1]
    rfl

/-- From the place on, no separator outside all brackets comes. -/
def KeepsOpen (p : Place) : Prop := ∀ q, Visits p q → q.isSeparator = false

/-- From the place on, an arrow outside all brackets comes whose body no separator ends. -/
def LeavesOpen (p : Place) : Prop := ∃ q, Visits p q ∧ q.isBareArrow = true ∧ q.KeepsOpen

theorem Step.keepsOpen (h : Step p found q) : p.KeepsOpen ↔ p.isSeparator = false ∧ q.KeepsOpen := by
  simp only [KeepsOpen, Visits.iff_of_step h, forall_eq_or_imp]

theorem Step.leavesOpen (h : Step p found q) :
    p.LeavesOpen ↔ p.isBareArrow = true ∧ q.KeepsOpen ∨ q.LeavesOpen := by
  have hfirst : p.isBareArrow = true ∧ p.KeepsOpen ↔ p.isBareArrow = true ∧ q.KeepsOpen := by
    rw [h.keepsOpen]
    exact and_congr_right fun hbare => and_iff_right (isSeparator_of_isBareArrow hbare)
  simp only [LeavesOpen, Visits.iff_of_step h, or_and_right, exists_or, exists_eq_left, hfirst]

/-- At the end of a text, the arrows outside all brackets that are open are those that no separator came behind. -/
theorem Reaches.arrows (h : Reaches p found q) (hend : q.rest = []) :
    (0 ∈ q.state.arrowDepths ↔ p.LeavesOpen ∨ 0 ∈ p.state.arrowDepths ∧ p.KeepsOpen) ∧
      (p.state.ArrowsBounded → q.state.ArrowsBounded) := by
  induction h with
  | refl p =>
    have hkeeps : p.KeepsOpen := fun r hr => hr.meets_of_nil hend _
    have hleaves : ¬ p.LeavesOpen := by
      rintro ⟨r, hr, hbare, -⟩
      exact Bool.eq_false_iff.1 (hr.meets_of_nil hend _) hbare
    exact ⟨by simp [hkeeps, hleaves], id⟩
  | @step p p' q found later hstep hreaches ih =>
    obtain ⟨hlater, hbounded⟩ := ih hend
    obtain ⟨hfirst, hbounded'⟩ := hstep.arrows
    refine ⟨?_, hbounded ∘ hbounded'⟩
    rw [hlater, hfirst, hstep.leavesOpen, hstep.keepsOpen, or_and_right, and_assoc, ← or_assoc,
      or_comm (a := p'.LeavesOpen)]

end Place

/-! A statement that starts with `await`, on a line of its own. -/

/-- The end of a line, and the statement. -/
def awaitLine : List Char := '\n' :: ("await".toList ++ [' ', 'x', ';'])

theorem encode_awaitLine (text : List Char) :
    Utf8.encode text ++ Utf8.ofString "\nawait x;" = Utf8.encode (text ++ awaitLine) := by
  have hline : "\nawait x;".toList = awaitLine := by simp [awaitLine]
  rw [Utf8.ofString, hline, Utf8.encode_append]

theorem alike_awaitLine : Alike [] awaitLine :=
  .of_nextSignificant (c := 'a') (by decide) (by decide) (by decide)

theorem junction_awaitLine : Junction [] awaitLine awaitLine 0 := .of_newline alike_awaitLine

/-- An operand and a semicolon run into nothing. -/
theorem scanFrom_operand {s : State} (hframes : s.frames = []) (offset : Nat) :
    scanFrom s offset [' ', 'x', ';'] = ⟨[], none⟩ := by
  let word : State := s.afterToken (.word "x")
  have hstop : ∀ c ∈ [';'].head?, isWordPart c = false := by
    rintro c ⟨⟩
    decide
  have hword : Place.Step ⟨s, offset + 1, "x".toList ++ [';']⟩ [] ⟨word, offset + 2, [';']⟩ :=
    Place.step_unmarked _ (by decide) (by decide) hstop s
  let last : State := (word.endArrows word.depth).afterToken (.punctuator ';')
  have hend : Place.Step ⟨word, offset + 2, [';']⟩ [] ⟨last, offset + 3, []⟩ := .intro rfl rfl
  have hlast : last.frames = [] := hframes
  have hreaches := Place.Reaches.step (Place.step_blank s offset _) (.step hword (.single hend))
  exact hreaches.scan.trans (congrArg (Scan.after []) (Place.scan_nil hlast _))

/-- Outside all brackets, the statement runs into its first word, unless an arrow is open. -/
theorem scanFrom_awaitLine {s : State} (hframes : s.frames = []) (hpoint : s.previous ≠ some (.punctuator '.'))
    (hfor : s.previous ≠ some (.word "for")) (offset : Nat) :
    scanFrom s offset awaitLine =
      ⟨if s.arrowDepths.isEmpty then [⟨offset + 1, .await⟩] else [], none⟩ := by
  let line : State := s.afterNewline
  have hfunction : line.inFunction = !s.arrowDepths.isEmpty := by
    simp [line, State.inFunction, State.afterNewline, hframes]
  have hprevious : line.previous = s.previous := rfl
  have hnot : line.afterPoint = false := by simpa [State.afterPoint, hprevious] using hpoint
  have hoperand : operandFollows [' ', 'x', ';'] = true := by decide
  have hfound : line.restriction? "await" [' ', 'x', ';'] =
      if s.arrowDepths.isEmpty then some .await else none := by
    simp [State.restriction?, hfunction, hprevious, hfor, hoperand]
  have hline : Place.Step ⟨s, offset, awaitLine⟩ [] ⟨line, offset + 1, "await".toList ++ [' ', 'x', ';']⟩ :=
    .intro rfl rfl
  have hword : isWord "await" = true := by decide
  have hstop : ∀ c ∈ [' ', 'x', ';'].head?, isWordPart c = false := by
    rintro c ⟨⟩
    decide
  have hfindings : (if s.arrowDepths.isEmpty then some Restriction.await else none).toList.map
      (Located.mk (offset + 1)) = if s.arrowDepths.isEmpty then [Located.mk (offset + 1) .await] else [] := by
    cases s.arrowDepths.isEmpty <;> rfl
  have hawait := (Place.step_of_isWord hword hstop line (offset + 1)).scan
  rw [hnot, hfound, if_neg Bool.false_ne_true, hfindings] at hawait
  have hrest := scanFrom_operand ((line.afterWord_frames "await").trans hframes)
  calc scanFrom s offset awaitLine
      _ = scanFrom line (offset + 1) ("await".toList ++ [' ', 'x', ';']) := hline.scan
      _ = Scan.after _ (scanFrom (line.afterWord "await") _ [' ', 'x', ';']) := hawait
      _ = ⟨if s.arrowDepths.isEmpty then [⟨offset + 1, .await⟩] else [], none⟩ := by
        rw [hrest, Scan.after, List.append_nil]

section

variable {text : List Char} {s : State} {found : List Finding}
  (h : Place.Reaches (Place.start text) found ⟨s, Text.byteSize text, []⟩)

include h

theorem scan_eq_of_reaches_end : scan text = ⟨found, s.unclosed?⟩ := by
  rw [← Place.scan_start, h.scan, Place.scan, scanFrom, Scan.after, List.append_nil]

theorem frames_of_closed (hclosed : (scan text).fault = none) : s.frames = [] := by
  simpa [scan_eq_of_reaches_end h, State.unclosed?] using hclosed

/-- Behind a text, the statement counts as inside the text's open arrows. -/
theorem scan_awaitLine (hclosed : (scan text).fault = none) (hpoint : s.previous ≠ some (.punctuator '.'))
    (hfor : s.previous ≠ some (.word "for")) :
    scan (text ++ awaitLine) =
      Scan.after (scan text).findings
        ⟨if s.arrowDepths.isEmpty then [⟨Text.byteSize text + 1, .await⟩] else [], none⟩ := by
  obtain ⟨last, hlast, hreaches⟩ := h.splice_start junction_awaitLine nofun (List.append_nil text).symm
  have hlater := (scanFrom_of_embeds hlast (Text.byteSize text) awaitLine).trans
    (scanFrom_awaitLine (frames_of_closed h hclosed) hpoint hfor _)
  rw [scan_eq_of_reaches_end h]
  exact hreaches.scan.trans (congrArg (Scan.after found) hlater)

/-- The arrows that are open at the end are those that no comma or semicolon came behind. -/
theorem isEmpty_arrowDepths (hframes : s.frames = []) :
    s.arrowDepths.isEmpty = true ↔ ¬ (Place.start text).LeavesOpen := by
  obtain ⟨hopen, hbounded⟩ := h.arrows rfl
  have hnone : 0 ∉ (Place.start text).state.arrowDepths := List.not_mem_nil
  have hzero : ∀ depth ∈ s.arrowDepths, depth = 0 := fun depth hmem => by
    have hle := hbounded nofun depth hmem
    rw [State.depth, hframes] at hle
    exact Nat.le_zero.1 hle
  rw [or_iff_left fun h => hnone h.1] at hopen
  rw [← hopen, List.isEmpty_iff, List.eq_nil_iff_forall_not_mem]
  exact ⟨fun h => h 0, fun h depth hmem => h (hzero depth hmem ▸ hmem)⟩

/--
A line with `await` behind a text that passes under both goals, and does not end with a point or the head of a
loop: a module allows it, and a script rejects it there, unless an arrow outside all brackets has an expression as
its body that no comma or semicolon has ended.
-/
theorem attempt_awaitLine (hpasses : ∀ goal, probe.attempt (Utf8.encode text) goal = .ok ())
    (hpoint : s.previous ≠ some (.punctuator '.')) (hfor : s.previous ≠ some (.word "for")) :
    probe.attempt (Utf8.encode text ++ Utf8.ofString "\nawait x;") .module = .ok () ∧
      (¬ (Place.start text).LeavesOpen →
        probe.attempt (Utf8.encode text ++ Utf8.ofString "\nawait x;") .script =
          .error ⟨⟨text.count '\n' + 2, 1, (Utf8.encode text).length + 1⟩,
            "'await' is only valid in async functions and module code"⟩) ∧
      ((Place.start text).LeavesOpen →
        probe.attempt (Utf8.encode text ++ Utf8.ofString "\nawait x;") .script = .ok ()) := by
  have hnone (goal : Goal) : (scan text).findingsOf goal = [] ∧ (scan text).fault = none := by
    have hok := hpasses goal
    rwa [probe_encode, judge_eq_ok_iff, Scan.violation?_eq_none_iff] at hok
  have hclosed : (scan text).fault = none := (hnone .script).2
  have hopen := isEmpty_arrowDepths h (frames_of_closed h hclosed)
  have hviolation (goal : Goal) : (scan (text ++ awaitLine)).violation? goal =
      Scan.violation? ⟨if s.arrowDepths.isEmpty then [⟨Text.byteSize text + 1, .await⟩] else [], none⟩ goal := by
    rw [scan_awaitLine h hclosed hpoint hfor, Scan.violation?_after_of_none (hnone goal).1]
  have hposition : Position.ofOffset (text ++ awaitLine) (Text.byteSize text + 1) =
      ⟨text.count '\n' + 2, 1, Text.byteSize text + 1⟩ := by
    have hlines := Position.ofOffset_lines text ("await".toList ++ [' ', 'x', ';']) 0
    have hsize : Text.byteSize (text ++ ['\n']) = Text.byteSize text + 1 := Text.byteSize_append ..
    rw [Nat.zero_add, hsize] at hlines
    rw [awaitLine, hlines, Position.below, Position.ofOffset, Nat.zero_min, Position.advance_zero]
    simp only [Nat.zero_add, Nat.add_left_comm 1]
  rw [encode_awaitLine, probe_encode, probe_encode, judge, judge, hviolation, hviolation, Utf8.length_encode]
  refine ⟨?_, fun hnot => ?_, fun hleaves => ?_⟩
  · cases s.arrowDepths.isEmpty <;> rfl
  · rw [hopen.2 hnot, ← hposition]
    rfl
  · rw [Bool.eq_false_iff.2 fun hempty => hopen.1 hempty hleaves]
    rfl

end

/-- A call leaves no arrow open, even if there is an arrow in it. -/
theorem attempt_awaitLine_of_call :
    probe.attempt (Utf8.ofString "f(x => y)" ++ Utf8.ofString "\nawait x;") .script =
      .error ⟨⟨2, 1, 10⟩, "'await' is only valid in async functions and module code"⟩ := by
  let last : State := { previous := some (.close .round), lineStart := false }
  have hend : Place.Reaches (Place.start "f(x => y)".toList) [] ⟨last, 9, []⟩ := by
    have htext : "f(x => y)".toList = ['f', '(', 'x', ' ', '=', '>', ' ', 'y', ')'] := by simp
    rw [htext]
    refine .quiet rfl rfl (.quiet rfl rfl (.quiet rfl rfl (.quiet rfl rfl ?_)))
    exact .quiet rfl rfl (.quiet rfl rfl (.quiet rfl rfl (.quiet rfl rfl (.refl _))))
  have hscan : scan "f(x => y)".toList = ⟨[], none⟩ := scan_eq_of_reaches_end hend
  have hpasses (goal : Goal) : probe.attempt (Utf8.ofString "f(x => y)") goal = .ok () := by
    rw [Utf8.ofString, probe_encode, judge, hscan]
    rfl
  have hnone := (isEmpty_arrowDepths hend rfl).1 rfl
  exact (attempt_awaitLine hend hpasses (by decide) (by decide)).2.1 hnone

/-- An arrow is open behind a name, though the name completes a statement. -/
theorem attempt_awaitLine_of_arrow :
    (∃ found s, s.previous = some (.word "y") ∧ Place.Reaches (Place.start "f = x => y".toList) found
        ⟨s, Text.byteSize "f = x => y".toList, []⟩) ∧
      (∀ goal, probe.attempt (Utf8.ofString "f = x => y") goal = .ok ()) ∧
      probe.attempt (Utf8.ofString "f = x => y" ++ Utf8.ofString "\nawait x;") .script = .ok () := by
  let last : State := { previous := some (.word "y"), lineStart := false, arrowDepths := [0] }
  have hend : Place.Reaches (Place.start "f = x => y".toList) [] ⟨last, 10, []⟩ := by
    have htext : "f = x => y".toList = ['f', ' ', '=', ' ', 'x', ' ', '=', '>', ' ', 'y'] := by simp
    rw [htext]
    refine .quiet rfl rfl (.quiet rfl rfl (.quiet rfl rfl (.quiet rfl rfl (.quiet rfl rfl ?_))))
    exact .quiet rfl rfl (.quiet rfl rfl (.quiet rfl rfl (.quiet rfl rfl (.refl _))))
  have hscan : scan "f = x => y".toList = ⟨[], none⟩ := scan_eq_of_reaches_end hend
  have hpasses (goal : Goal) : probe.attempt (Utf8.ofString "f = x => y") goal = .ok () := by
    rw [Utf8.ofString, probe_encode, judge, hscan]
    rfl
  refine ⟨⟨[], last, rfl, hend⟩, hpasses, ?_⟩
  rw [Utf8.ofString, encode_awaitLine, probe_encode, judge,
    scan_awaitLine hend (congrArg Scan.fault hscan) (by decide) (by decide), hscan]
  rfl

end ParseGoal.Ecma
