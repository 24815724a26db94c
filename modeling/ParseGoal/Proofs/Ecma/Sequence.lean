import ParseGoal.Proofs.Ecma.Verdict

/-!
One text after another, with a semicolon on a line of its own between them. What the scan of the
first remembers at its end is worth nothing to the second, unless a class still waits for its body.
-/
namespace ParseGoal.Ecma

/-- Only the word itself makes a class wait for its body. -/
theorem State.take_classDepth {s next : State} {start : Nat} {lexeme : Lexeme} {rest : List Char}
    {found : List Finding} (h : s.take start lexeme rest = ⟨found, .ok next⟩)
    (hs : s.classDepth = none) (hword : lexeme ≠ .word "class") : next.classDepth = none := by
  have htemplate {s : State} (hs : s.classDepth = none) {start : Nat} {stop : Option TemplateStop}
      (h : s.takeTemplate start stop = ⟨found, .ok next⟩) : next.classDepth = none := by
    cases stop with
    | none => cases h
    | some stop =>
      cases stop <;>
      · cases h
        exact hs
  cases lexeme with
  | template stop => exact htemplate hs h
  | templateTail stop =>
    rw [State.take, State.takeTail] at h
    split at h
    · cases h
    · exact htemplate (s := State.endArrows { s with frames := _ } _) hs h
  | closer d =>
    simp only [State.take, State.takeCloser, Turn.mk.injEq] at h
    obtain ⟨-, h⟩ := h
    split at h
    · cases h
    · split at h
      · cases h
        exact hs
      · cases h
  | opener d =>
    cases h
    rw [State.takeOpener]
    split
    · rfl
    · exact hs
  | word text =>
    cases h
    rw [State.afterWord]
    split
    · exact hs
    · have htext : text ≠ "class" := fun heq => hword (congrArg Lexeme.word heq)
      simpa only [if_neg htext] using hs
  | blockComment multiline =>
    cases h
    cases multiline <;> exact hs
  | arrow | punctuator c =>
    cases h
    split <;> exact hs
  | _ =>
    cases h
    try exact hs

namespace Place

theorem Reaches.classDepth {p q : Place} {found : List Finding} (h : Reaches p found q)
    (hp : p.state.classDepth = none) (hword : ¬ "class".toList <:+: p.rest) :
    q.state.classDepth = none := by
  induction h with
  | refl => exact hp
  | step hstep hreaches ih =>
    obtain ⟨first, -, hfirst, -⟩ := hstep.exists_append
    refine ih ?_ fun hlater => hword (hlater.trans ⟨first, [], by rw [hfirst, List.append_nil]⟩)
    obtain ⟨rfl, htake⟩ := hstep
    refine State.take_classDepth htake hp fun hclass => hword ?_
    rw [← text_cut_word hclass]
    exact List.IsPrefix.isInfix ⟨_, cut_append ..⟩

end Place

/-- The text, after a semicolon on a line of its own. -/
def afterSemicolon (text : List Char) : List Char := '\n' :: ';' :: '\n' :: text

theorem alike_afterSemicolon (text : List Char) : Alike [] (afterSemicolon text) := by
  have hnext : nextSignificant (afterSemicolon text) = some ';' := by
    rw [afterSemicolon, nextSignificant_blank (.inl rfl), nextSignificant_visible] <;> decide
  have hoperand : operandFollows (afterSemicolon text) = false := by
    rw [afterSemicolon, operandFollows_visible (by decide) (by decide)]
    rfl
  exact .of_nextSignificant hnext (by decide) hoperand

theorem junction_afterSemicolon (text : List Char) :
    Junction [] (afterSemicolon text) (afterSemicolon text) 0 := .of_newline (alike_afterSemicolon text)

/-- The state behind the semicolon and the line ends around it. -/
def State.afterSemicolon (s : State) : State :=
  ((s.afterNewline.endArrows s.depth).afterToken (.punctuator ';')).afterNewline

theorem Place.reaches_afterSemicolon (s : State) (offset : Nat) (text : List Char) :
    Reaches ⟨s, offset, Ecma.afterSemicolon text⟩ [] ⟨s.afterSemicolon, offset + 3, text⟩ := by
  have hfirst : Step ⟨s, offset, Ecma.afterSemicolon text⟩ []
      ⟨s.afterNewline, offset + 1, ';' :: '\n' :: text⟩ := .intro rfl rfl
  have hsecond : Step ⟨s.afterNewline, offset + 1, ';' :: '\n' :: text⟩ []
      ⟨(s.afterNewline.endArrows s.depth).afterToken (.punctuator ';'), offset + 2, '\n' :: text⟩ :=
    .intro rfl rfl
  have hthird : Step
      ⟨(s.afterNewline.endArrows s.depth).afterToken (.punctuator ';'), offset + 2, '\n' :: text⟩ []
      ⟨s.afterSemicolon, offset + 3, text⟩ := .intro rfl rfl
  exact .step hfirst (.step hsecond (.single hthird))

/-- Outside all brackets, and with no class waiting for its body, a semicolon starts all over. -/
theorem State.embeds_afterSemicolon {s : State} (hframes : s.frames = []) (hclass : s.classDepth = none)
    (f : Nat → Nat) : Embeds f [] {} s.afterSemicolon where
  isBody := nofun
  frames := hframes
  previous := .inr ⟨rfl, .inl rfl⟩
  lineStart := rfl
  controlNext := rfl
  classDepth := hclass
  arrowDepths := by
    simp [State.afterSemicolon, State.afterNewline, State.afterToken, State.endArrows, State.depth, hframes]
  atStatementStart _ := by
    simp [State.afterSemicolon, State.afterNewline, State.afterToken, State.endArrows,
      State.atStatementStart, hframes]

/-- The second text is scanned as if it stood alone. -/
theorem scan_afterSemicolon {a b : List Char} (hclosed : (scan a).fault = none)
    (hclass : ¬ "class".toList <:+: a) (hplain : ¬ ['#', '!'] <+: b) :
    scan (a ++ afterSemicolon b) =
      ((scan b).relocate (· + (Text.byteSize a + 3))).after (scan a).findings := by
  obtain ⟨last, hreaches, hframes⟩ := (Place.start a).exists_reaches_end hclosed
  have hend : last.classDepth = none := hreaches.classDepth rfl fun h =>
    hclass (h.trans (afterInterpreterLine_suffix a).isInfix)
  have hsize : (Place.start a).offset + Text.byteSize (Place.start a).rest = Text.byteSize a :=
    byteSize_interpreterLine a
  rw [hsize] at hreaches
  obtain ⟨last', hembeds, hreaches'⟩ := hreaches.splice_start (junction_afterSemicolon b) nofun
    (List.append_nil a).symm
  have hframes' : last'.frames = [] := by
    rw [hembeds.frames, hframes]
    rfl
  have hend' : last'.classDepth = none := by
    rw [hembeds.classDepth, hend]
    rfl
  have hagain := State.embeds_afterSemicolon hframes' hend' (· + (Text.byteSize a + 3))
  have hscan := scanFrom_embeds hagain 0 (fun k => by omega) b
  have hb : scan b = scanFrom {} 0 b := by
    rw [← Place.scan_start, Place.start_of_plain hplain]
    rfl
  rw [← Place.scan_start, (hreaches'.trans (Place.reaches_afterSemicolon ..)).scan, List.append_nil,
    Place.scan, hb, ← hscan]
  simp only [Nat.zero_add, Nat.add_zero]
  rfl

/-- A place of the second text. -/
theorem ofOffset_afterSemicolon (a b : List Char) (offset : Nat) :
    Position.ofOffset (a ++ afterSemicolon b) (offset + (Text.byteSize a + 3)) =
      (Position.ofOffset b offset).below (2 + a.count '\n') (Text.byteSize a + 3) := by
  have htext : a ++ afterSemicolon b = (a ++ ['\n', ';']) ++ '\n' :: b := by simp [afterSemicolon]
  have hsize : Text.byteSize ((a ++ ['\n', ';']) ++ ['\n']) = Text.byteSize a + 3 := by
    simp only [Text.byteSize_append]
    rfl
  have hlines : (a ++ ['\n', ';']).count '\n' + 1 = 2 + a.count '\n' := by
    rw [List.count_append, Nat.add_comm 2]
    rfl
  rw [htext, ← hsize, Position.ofOffset_lines, hlines]

/--
Two texts with a semicolon on a line of its own between them: the first fails as it does alone, and
otherwise the second passes or fails as it does alone, further down.
-/
theorem attempt_sequence {a b : List Char} (hclosed : (scan a).fault = none)
    (hclass : ¬ Utf8.ofString "class" <:+: Utf8.encode a)
    (hplain : ¬ Utf8.ofString "#!" <+: Utf8.encode b) (goal : Goal) :
    probe.attempt (Utf8.encode a ++ Utf8.ofString "\n;\n" ++ Utf8.encode b) goal =
      match (probe.attempt (Utf8.encode a) goal : Verdict) with
      | .error failure => .error failure
      | .ok () => (probe.attempt (Utf8.encode b) goal : Verdict).mapError fun failure =>
          { failure with
            position.line := failure.position.line + (2 + a.count '\n')
            position.offset := failure.position.offset + ((Utf8.encode a).length + 3) } := by
  have hbytes : Utf8.encode a ++ Utf8.ofString "\n;\n" ++ Utf8.encode b =
      Utf8.encode (a ++ afterSemicolon b) := by
    rw [List.append_assoc, Utf8.ofString, ← Utf8.encode_append, ← Utf8.encode_append]
    rfl
  have hscan := scan_afterSemicolon hclosed (fun h => hclass (Utf8.infix_encode h))
    (fun h => hplain (Utf8.prefix_encode h))
  have hmono : StrictMono (· + (Text.byteSize a + 3)) := fun _ _ h => Nat.add_lt_add_right h _
  rw [hbytes, probe_encode, probe_encode, probe_encode, judge, judge, hscan,
    Scan.violation?_of_closed hclosed]
  cases hfound : (scan a).findingsOf goal with
  | nil =>
    rw [Scan.violation?_after_of_none hfound, Scan.violation?_relocate hmono, judge]
    cases (scan b).violation? goal with
    | none => rfl
    | some v =>
      simp only [Option.map_some, Located.relocate, ofOffset_afterSemicolon, Utf8.length_encode]
      rfl
  | cons r later =>
    have hr : (scan a).violation? goal = some ⟨r.offset, .restriction r.what⟩ := by
      rw [Scan.violation?_of_closed hclosed, hfound]
      rfl
    have hlt : r.offset < Text.byteSize a := offset_lt_of_scan a goal _ hr
    have hfails : (((scan b).relocate (· + (Text.byteSize a + 3))).after (scan a).findings).violation? goal =
        some ⟨r.offset, .restriction r.what⟩ := by
      refine Scan.violation?_of_head (r := r) ?_ fun x hx => ?_
      · rw [Scan.findingsOf_after, ← Scan.findingsOf, hfound]
        rfl
      · obtain ⟨y, -, rfl⟩ := Option.map_eq_some_iff.1 hx
        simp only [Located.relocate]
        omega
    rw [hfails]
    simp only [List.head?_cons, Option.map_some, Position.ofOffset_append hlt.le]

/-- The arrow at the end of the first text does not reach into the second. -/
theorem attempt_sequence_of_arrow :
    probe.attempt (Utf8.ofString "f = x => y" ++ Utf8.ofString "\n;\n" ++ Utf8.ofString "await z")
        .script =
      .error ⟨⟨3, 1, 13⟩, "'await' is only valid in async functions and module code"⟩ := by
  have hclosed : (scan "f = x => y".toList).fault = none := by decide +kernel
  have ha : (scan "f = x => y".toList).violation? .script = none := by decide +kernel
  have hb : (scan "await z".toList).violation? .script = some ⟨0, .restriction .await⟩ := by
    decide +kernel
  refine (attempt_sequence hclosed (by decide +kernel) (b := "await z".toList) (by decide) _).trans ?_
  rw [probe_encode, probe_encode, judge, judge, ha, hb]
  rfl

end ParseGoal.Ecma
