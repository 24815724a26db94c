import ParseGoal.Proofs.Ecma.Opacity
import ParseGoal.Proofs.Ecma.Returns

/-!
How the lines of a source end changes no verdict: with a carriage return in front of every line feed, what
fails does so for the same reason, on the same line and in the same column.
-/
namespace ParseGoal.Ecma

open Text (withReturns withReturns_feed withReturns_cons)

theorem Lexeme.withReturns_of_parts {lexeme : Lexeme} (h : lexeme.parts = []) : lexeme.withReturns = lexeme := by
  have hmap : lexeme.parts.map StringPart.withReturns = lexeme.parts := by rw [h, List.map_nil]
  rw [Lexeme.withReturns, hmap, lexeme.withParts_parts]

/-- What a regular expression that a scan takes is made of. -/
theorem exists_regexBody_of_cut {context : Context} {c : Char} {rest : List Char}
    (h : (cut context c rest).lexeme = .regex) : context.regexAllowed = true ∧
      ∃ body after, regexBody false rest = some (body, after) ∧
        (cut context c rest).text = '/' :: (body ++ after.takeWhile isIdentifierPart) := by
  revert h
  fun_cases cut context c rest with
  | case3 =>
    fun_cases cutSlash context rest with
    | case4 _ _ hallowed body after hbody => exact fun _ => ⟨hallowed, body, after, hbody, rfl⟩
    | _ => rintro ⟨⟩
  | case6 =>
    rw [cutString]
    split <;> rintro ⟨⟩
  | case7 | case8 =>
    rw [cutTemplate]
    split <;> rintro ⟨⟩
  | case16 =>
    rw [cutWide]
    split_ifs <;> rintro ⟨⟩
  | _ => rintro ⟨⟩

/-- Only a backslash takes a regular expression over the end of a line. -/
theorem infix_of_mem_regexBody {inClass : Bool} {text body after : List Char}
    (h : regexBody inClass text = some (body, after)) (hfeed : '\n' ∈ body) : ['\\', '\n'] <:+: body := by
  have hcons {c : Char} {body : List Char} (h : ['\\', '\n'] <:+: body) : ['\\', '\n'] <:+: c :: body :=
    h.trans (List.suffix_cons c body).isInfix
  induction regexBody_eq_some_iff.1 h with
  | close => simp at hfeed
  | @escape inClass rest body after d hread ih =>
    by_cases hd : d = '\n'
    · subst hd
      exact ⟨[], body, rfl⟩
    · have hmem : '\n' ∈ body := by simpa [Ne.symm hd] using hfeed
      exact hcons (hcons (ih hread.eq_some hmem))
  | inner hc hread ih =>
    exact hcons (ih hread.eq_some ((List.mem_cons.1 hfeed).resolve_left (Ne.symm (not_or.1 hc.line).1)))

theorem infix_of_regex_cut {context : Context} {c : Char} {rest : List Char}
    (h : (cut context c rest).lexeme = .regex) (hfeed : '\n' ∈ (cut context c rest).text) :
    ['\\', '\n'] <:+: (cut context c rest).text := by
  obtain ⟨-, body, after, hbody, htext⟩ := exists_regexBody_of_cut h
  have hflags : '\n' ∉ after.takeWhile isIdentifierPart := fun hmem =>
    absurd (List.mem_takeWhile_imp hmem) (by decide)
  rw [htext] at hfeed ⊢
  have hmem : '\n' ∈ body := by simpa [hflags] using hfeed
  exact ((infix_of_mem_regexBody hbody hmem).trans (List.prefix_append ..).isInfix).trans
    (List.suffix_cons ..).isInfix

theorem nextSignificant_return (rest : List Char) : nextSignificant ('\r' :: rest) = nextSignificant rest :=
  nextSignificant_blank (by decide) rest

theorem operandFollows_lineEnd {c : Char} (hc : c = '\n' ∨ c = '\r') (rest : List Char) :
    operandFollows (c :: rest) = false := by
  rcases hc with rfl | rfl <;> exact (operandFollows_visible (by decide) (by decide) rest).trans rfl

/-- A return that a comment has taken makes no difference to looking ahead behind the comment. -/
theorem Alike.of_gap {rest rest' gap : List Char} (hgap : IsGap rest gap)
    (hrest : gap ++ rest' = withReturns rest) (h : Alike rest (withReturns rest)) : Alike rest rest' := by
  obtain rfl | ⟨rfl, more, rfl⟩ := hgap
  · obtain rfl : rest' = withReturns rest := hrest
    exact h
  · obtain rfl : rest' = '\n' :: withReturns more := by simpa [withReturns_feed] using hrest
    refine ⟨fun c hc => (h.next c hc).trans ?_, ?_⟩
    · rw [withReturns_feed, nextSignificant_return]
    · rw [operandFollows_lineEnd (.inl rfl), operandFollows_lineEnd (.inl rfl)]

/-- Looking ahead does not see returns. -/
theorem alike_withReturns {text : List Char} (hreturn : '\r' ∉ text) : Alike text (withReturns text) := by
  induction hlength : text.length using Nat.strong_induction_on generalizing text with
  | _ n ih =>
    cases text with
    | nil => exact .refl []
    | cons c rest =>
      obtain ⟨-, hreturn'⟩ := List.ne_and_not_mem_of_not_mem_cons hreturn
      by_cases hc : c = '\n'
      · subst hc
        have hrest := ih _ (hlength ▸ Nat.lt_succ_self _) hreturn' rfl
        rw [withReturns_feed]
        constructor
        · intro d hd
          rw [nextSignificant_blank (.inl rfl), nextSignificant_return, nextSignificant_blank (.inl rfl)]
          exact hrest.next d hd
        · rw [operandFollows_lineEnd (.inl rfl), operandFollows_lineEnd (.inr rfl)]
      rw [withReturns_cons hc]
      by_cases hquote : c = '\'' ∨ c = '"'
      · rcases hquote with rfl | rfl <;> exact .of_visible (by decide) (by decide) (by decide) _ _
      -- Looking ahead takes no regular expressions, and so goes as in a context that does not either.
      let context : Context := ⟨false, false, false⟩
      obtain ⟨hlexeme, gap, hgap, -, hgap'⟩ := cut_returned context hc hreturn' fun h =>
        absurd (exists_regexBody_of_cut h).1 Bool.false_ne_true
      have hafter : '\r' ∉ (cut context c rest).rest := fun h => hreturn (by
        rw [← cut_append context c rest]
        exact List.mem_append_right _ h)
      have hlater := ih _ (hlength ▸ cut_rest_length context c rest) hafter rfl
      rw [Lexeme.withReturns_of_parts (parts_cut hquote context rest)] at hlexeme
      exact .cons context hlexeme.symm (.of_gap hgap hgap' hlater)

/-- No regular expression that the scan takes from a place on goes over the end of a line, behind a backslash. -/
def Place.BreaksNoRegex (p : Place) : Prop :=
  ∀ q, p.Visits q → ∀ piece, cutAt q.state.context q.rest = some piece → piece.lexeme = .regex →
    ¬ ['\\', '\n'] <:+: piece.text

/-- A return in front of a line feed is a blank of its own. -/
theorem scanFrom_gap {rest gap : List Char} (hgap : IsGap rest gap) (s : State) (offset : Nat)
    (rest' : List Char) :
    scanFrom s offset (gap ++ rest') = scanFrom s (offset + Text.byteSize gap) rest' := by
  obtain rfl | ⟨rfl, -⟩ := hgap
  · rfl
  · have hstep : Place.Step ⟨s, offset, '\r' :: rest'⟩ [] ⟨s, offset + 1, rest'⟩ := .intro rfl rfl
    exact hstep.scan

/-- Octal escapes of a string that a scan takes move by the returns before them. -/
theorem octalOffsets_of_cut {context : Context} {c : Char} {rest : List Char} (hreturn : '\r' ∉ rest)
    {f : Nat → Nat} {offset : Nat} (hf : ∀ first, first <+: c :: rest →
      f (offset + Text.byteSize first) = f offset + Text.byteSize (withReturns first)) :
    octalOffsets (f offset + 1) ((cut context c rest).lexeme.parts.map StringPart.withReturns) =
      (octalOffsets (offset + 1) (cut context c rest).lexeme.parts).map f := by
  by_cases hquote : c = '\'' ∨ c = '"'
  · have hparts : (cut context c rest).lexeme.parts = (stringParts c rest).1 := by
      rw [cut_quote hquote, cutString]
      split <;> next h => rw [h]; rfl
    have hc : c.utf8Size = 1 ∧ c ≠ '\n' := by rcases hquote with rfl | rfl <;> decide
    rw [hparts]
    refine octalOffsets_withReturns (fun part hpart => text_withReturns_of_mem hreturn hpart)
      fun first hfirst => ?_
    have hinside := stringText_prefix c rest
    have hprefix : c :: first <+: c :: rest := List.cons_prefix_cons.2 ⟨rfl, hfirst.trans hinside⟩
    have hmoves := hf _ hprefix
    rwa [withReturns_cons hc.2, Text.byteSize_cons, Text.byteSize_cons, hc.1, ← Nat.add_assoc,
      ← Nat.add_assoc] at hmoves
  · rw [parts_cut hquote]
    rfl

/--
From the state `t`, a text is scanned with the returns put in as it is without them from a place: the offsets are
those of the place, moved by `f`.
-/
structure Place.IsReturned (p : Place) (f : Nat → Nat) (t : State) : Prop where
  embeds : Embeds f [] p.state t
  plain : '\r' ∉ p.rest
  regex : p.BreaksNoRegex
  moves (first : List Char) (h : first <+: p.rest) :
    f (p.offset + Text.byteSize first) = f p.offset + Text.byteSize (withReturns first)

section

variable {f : Nat → Nat} {s t : State} {offset : Nat} {c : Char} {rest : List Char}

theorem Place.IsReturned.step {p q : Place} {found : List Finding} (h : p.IsReturned f t)
    (hstep : Place.Step p found q) {t' : State} (hembeds : Embeds f [] q.state t') : q.IsReturned f t' := by
  obtain ⟨text, -, htext, hoffset⟩ := hstep.exists_append
  refine ⟨hembeds, fun hmem => h.plain (htext ▸ List.mem_append_right text hmem),
    fun r hr => h.regex r (hr.step hstep), fun first hfirst => ?_⟩
  have hhere := h.moves text ⟨q.rest, htext.symm⟩
  have hlater := h.moves (text ++ first) (htext ▸ (List.prefix_append_right_inj text).2 hfirst)
  rw [hoffset, Nat.add_assoc, ← Text.byteSize_append, hlater, hhere, Text.withReturns_append,
    Text.byteSize_append, Nat.add_assoc]

/-- At the end of a line, the return is a blank of its own. -/
theorem scanFrom_withReturns_feed (h : Place.IsReturned ⟨s, offset, '\n' :: rest⟩ f t)
    (hnext : scanFrom t.afterNewline (f (offset + 1)) (withReturns rest) =
      (scanFrom s.afterNewline (offset + 1) rest).relocate f) :
    scanFrom t (f offset) (withReturns ('\n' :: rest)) = (scanFrom s offset ('\n' :: rest)).relocate f := by
  have hfirst : Place.Step ⟨s, offset, '\n' :: rest⟩ [] ⟨s.afterNewline, offset + 1, rest⟩ := .intro rfl rfl
  have hblank : Place.Step ⟨t, f offset, '\r' :: '\n' :: withReturns rest⟩ []
      ⟨t, f offset + 1, '\n' :: withReturns rest⟩ := .intro rfl rfl
  have hbreak : Place.Step ⟨t, f offset + 1, '\n' :: withReturns rest⟩ []
      ⟨t.afterNewline, f offset + 2, withReturns rest⟩ := .intro rfl rfl
  have hoffset : f (offset + 1) = f offset + 2 := h.moves ['\n'] ⟨rest, rfl⟩
  rw [hoffset] at hnext
  rw [withReturns_feed]
  exact ((hblank.scan.trans hbreak.scan).trans hnext).trans (congrArg _ hfirst.scan.symm)

/-- Any other lexeme runs into the same, and the scan goes on behind it and the return that it may have taken. -/
theorem scanFrom_withReturns_lexeme (h : Place.IsReturned ⟨s, offset, c :: rest⟩ f t) (hc : c ≠ '\n')
    (hnext : ∀ {found : List Finding} {next next' : State},
      s.take offset (cut s.context c rest).lexeme (cut s.context c rest).rest = ⟨found, .ok next⟩ →
      Embeds f [] next next' →
      scanFrom next' (f (offset + Text.byteSize (cut s.context c rest).text))
          (withReturns (cut s.context c rest).rest) =
        (scanFrom next (offset + Text.byteSize (cut s.context c rest).text) (cut s.context c rest).rest).relocate f) :
    scanFrom t (f offset) (withReturns (c :: rest)) = (scanFrom s offset (c :: rest)).relocate f := by
  obtain ⟨-, hreturn⟩ := List.ne_and_not_mem_of_not_mem_cons h.plain
  have happend := cut_append s.context c rest
  have hlater : '\r' ∉ (cut s.context c rest).rest := fun hmem => h.plain (by
    rw [← happend]
    exact List.mem_append_right _ hmem)
  obtain ⟨hlexeme, gap, hgap, htext, hrest⟩ := cut_returned s.context hc hreturn fun hlexeme hfeed =>
    h.regex _ (.refl _) _ rfl hlexeme (infix_of_regex_cut hlexeme hfeed)
  have halike := Alike.of_gap hgap hrest (alike_withReturns hlater)
  obtain ⟨hfound, hcarried⟩ := h.embeds.take_withParts halike (cut s.context c rest).lexeme
    (octalOffsets_of_cut hreturn h.moves) (.inl rfl)
  rw [carry_nil] at hfound
  rw [withReturns_cons hc, scanFrom, scanFrom, h.embeds.context, hlexeme, htext, Lexeme.withReturns]
  generalize t.take (f offset) _ _ = turn' at hfound hcarried ⊢
  generalize s.take offset _ _ = turn at hfound hcarried hnext ⊢
  obtain ⟨found, next⟩ := turn
  obtain ⟨found', next'⟩ := turn'
  obtain rfl : found' = found.map (Located.relocate f) := hfound
  cases hcarried with
  | error _ fault => rfl
  | ok hembeds =>
    have hagain := hnext rfl hembeds
    have hoffset : f (offset + Text.byteSize (cut s.context c rest).text) =
        f offset + Text.byteSize (withReturns (cut s.context c rest).text) := h.moves _ ⟨_, happend⟩
    rw [hoffset, ← hrest, scanFrom_gap hgap] at hagain
    dsimp only
    rw [Text.byteSize_append, ← Nat.add_assoc, hagain, Scan.relocate_after]

end

/-- A text scanned with the returns put in, from the same state but for the offsets in it, gives the same. -/
theorem scanFrom_withReturns {f : Nat → Nat} {t : State} {p : Place} (h : p.IsReturned f t) :
    scanFrom t (f p.offset) (withReturns p.rest) = p.scan.relocate f := by
  induction hlength : p.rest.length using Nat.strong_induction_on generalizing p t with
  | _ n ih =>
    obtain ⟨s, offset, text⟩ := p
    cases text with
    | nil =>
      rw [Text.withReturns_nil, scanFrom, Place.scan, scanFrom, State.unclosed?_embeds h.embeds]
      rfl
    | cons c rest =>
      by_cases hc : c = '\n'
      · subst hc
        have hstep : Place.Step ⟨s, offset, '\n' :: rest⟩ [] ⟨s.afterNewline, offset + 1, rest⟩ := .intro rfl rfl
        refine scanFrom_withReturns_feed h ?_
        exact ih _ (hlength ▸ Nat.lt_succ_self _) (h.step hstep h.embeds.afterNewline) rfl
      · refine scanFrom_withReturns_lexeme h hc fun htake hembeds => ?_
        exact ih _ (hlength ▸ cut_rest_length s.context c rest) (h.step (.intro rfl htake) hembeds) rfl

/-- An offset in a source, behind the returns put in before it. -/
def pastReturns (source : Bytes) (offset : Nat) : Nat := offset + (source.take offset).count 0x0A

theorem strictMono_pastReturns (source : Bytes) : StrictMono (pastReturns source) := by
  intro m n h
  have hcount : (source.take m).count 0x0A ≤ (source.take n).count 0x0A :=
    (List.take_prefix_take_left h.le).sublist.count_le _
  rw [pastReturns, pastReturns]
  omega

theorem pastReturns_byteSize (before : List Char) (more : Bytes) :
    pastReturns (Utf8.encode before ++ more) (Text.byteSize before) = Text.byteSize (withReturns before) := by
  have hcount : (Utf8.encode before).count 0x0A = before.count '\n' :=
    Cursor.count_encode (d := '\n') (by decide) before
  rw [pastReturns, Utf8.take_encode, hcount, Text.byteSize_withReturns]

/-- The same line and column, behind the returns. -/
theorem ofOffset_pastReturns (before after : List Char) (more : Bytes) :
    Position.ofOffset (withReturns (before ++ after))
        (pastReturns (Utf8.encode (before ++ after) ++ more) (Text.byteSize before)) =
      { Position.ofOffset (before ++ after) (Text.byteSize before) with
        offset := pastReturns (Utf8.encode (before ++ after) ++ more)
          (Position.ofOffset (before ++ after) (Text.byteSize before)).offset } := by
  have hoffset : (Position.ofOffset (before ++ after) (Text.byteSize before)).offset = Text.byteSize before :=
    Position.offset_ofOffset (by rw [Text.byteSize_append]; exact Nat.le_add_right ..)
  rw [hoffset, Utf8.encode_append, List.append_assoc, pastReturns_byteSize, Text.ofOffset_withReturns,
    Text.byteSize_withReturns]

/-- Everything is found again, behind the returns. -/
theorem scan_withReturns {text : List Char} (hreturn : '\r' ∉ text)
    (hregex : (Place.start text).BreaksNoRegex) :
    scan (withReturns text) = (scan text).relocate (pastReturns (Utf8.encode text)) := by
  have hlines := interpreterLine_append text
  obtain ⟨gap, hgap, hfirst, hrest⟩ : ∃ gap, IsGap (afterInterpreterLine text) gap ∧
      interpreterLine (withReturns text) = withReturns (interpreterLine text) ++ gap ∧
      gap ++ afterInterpreterLine (withReturns text) = withReturns (afterInterpreterLine text) := by
    simp only [interpreterLine, afterInterpreterLine,
      Text.isPrefixOf_withReturns (p := ['#', '!']) (by decide) (by decide)]
    split
    · exact lineText_withReturns text
    · exact ⟨[], .inl rfl, rfl, rfl⟩
  have hmoves (first : List Char) (h : first <+: afterInterpreterLine text) :
      pastReturns (Utf8.encode text) (Text.byteSize (interpreterLine text) + Text.byteSize first) =
        Text.byteSize (withReturns (interpreterLine text)) + Text.byteSize (withReturns first) := by
    obtain ⟨more, hmore⟩ := h
    have htext : interpreterLine text ++ first ++ more = text := by rw [List.append_assoc, hmore, hlines]
    have hsize := pastReturns_byteSize (interpreterLine text ++ first) (Utf8.encode more)
    rwa [← Utf8.encode_append, htext, Text.byteSize_append, Text.withReturns_append, Text.byteSize_append] at hsize
  have hstart := hmoves [] List.nil_prefix
  rw [Text.withReturns_nil, Text.byteSize_nil, Nat.add_zero, Nat.add_zero] at hstart
  have hempty : Embeds (pastReturns (Utf8.encode text)) [] {} {} :=
    (Embeds.refl {}).of_fixed (by rintro _ ⟨⟩)
  have hlater : '\r' ∉ afterInterpreterLine text := fun hmem =>
    hreturn ((afterInterpreterLine_suffix text).subset hmem)
  have hreturned : Place.IsReturned (Place.start text) (pastReturns (Utf8.encode text)) {} :=
    ⟨hempty, hlater, hregex, fun first h => (hmoves first h).trans (by rw [Place.start, hstart])⟩
  have hagain := scanFrom_withReturns hreturned
  rwa [Place.start, hstart, ← hrest, scanFrom_gap hgap, ← Text.byteSize_append, ← hfirst] at hagain

/--
Line feeds and pairs of a carriage return and a line feed end lines alike: with returns put in, a source passes or fails
as it did, with the same message on the same line and in the same column. Strings may go over the
end of a line; regular expressions that do, behind a backslash, are not covered.
-/
theorem attempt_withReturns {source : Bytes} (hreturn : 0x0D ∉ source)
    (hregex : ∀ text, source = Utf8.encode text → (Place.start text).BreaksNoRegex) (goal : Goal) :
    probe.attempt (Utf8.withReturns source) goal =
      (probe.attempt source goal : Verdict).mapError fun failure =>
        { failure with position.offset :=
            failure.position.offset + (source.take failure.position.offset).count 0x0A } := by
  have hbytes := Utf8.encode_decode source
  have hdecode := Utf8.decode_withReturns source
  simp only [probe]
  generalize Utf8.decode source = found at hbytes hdecode ⊢
  obtain ⟨text, bad⟩ := found
  dsimp only at hbytes hdecode
  rw [hdecode]
  cases bad with
  | nil =>
    rw [List.append_nil] at hbytes
    have htext : '\r' ∉ text := fun hmem =>
      hreturn (hbytes ▸ (Cursor.byte_mem_encode (d := '\r') (by decide) text).2 hmem)
    change judge (withReturns text) goal = (judge text goal).mapError _
    rw [judge, judge, scan_withReturns htext (hregex text hbytes.symm),
      Scan.violation?_relocate (strictMono_pastReturns _)]
    cases hv : (scan text).violation? goal with
    | none => rfl
    | some v =>
      obtain ⟨before, after, rfl, -, hoffset⟩ := starts_of_violation? hv
      have hmoved := ofOffset_pastReturns before after []
      rw [List.append_nil, hbytes, ← Nat.zero_add (Text.byteSize before), ← hoffset] at hmoved
      simp only [Option.map_some, Located.relocate, hbytes, hmoved]
      rfl
  | cons b bad =>
    have hmoved := ofOffset_pastReturns text [] (b :: bad)
    rw [List.append_nil, hbytes, ← hbytes, pastReturns_byteSize, hbytes] at hmoved
    obtain ⟨b', bad', hbad⟩ : ∃ b' bad', Utf8.withReturns (b :: bad) = b' :: bad' := by
      by_cases hb : b = 0x0A
      · exact ⟨_, _, by rw [hb]; exact markBefore_cons_item bad⟩
      · exact ⟨_, _, markBefore_cons_of_ne hb bad⟩
    rw [hbad]
    simp only [hmoved]
    rfl

/-- A number behind a regular expression and the end of its line. -/
theorem attempt_withReturns_of_number :
    probe.attempt (Utf8.ofString "/b/\r\n07") .module =
      .error ⟨⟨2, 1, 5⟩, "legacy octal and leading-zero literals are not allowed in module code"⟩ := by
  let text : List Char := ['/', 'b', '/', '\n', '0', '7']
  let regex : State := State.afterToken {} .literal
  have hregex : Place.Step (Place.start text) [] ⟨regex, 3, ['\n', '0', '7']⟩ := .intro rfl rfl
  have hline : Place.Step ⟨regex, 3, ['\n', '0', '7']⟩ [] ⟨regex.afterNewline, 4, ['0', '7']⟩ := .intro rfl rfl
  have hnumber : Place.Step ⟨regex.afterNewline, 4, ['0', '7']⟩ [⟨4, .legacyNumber⟩]
      ⟨regex.afterNewline.afterToken .literal, 6, []⟩ := .intro rfl rfl
  have hbreaks : (Place.start text).BreaksNoRegex := by
    intro q hq piece hpiece hlexeme
    rcases hq.of_step hregex with rfl | hq
    · obtain rfl := Option.some.inj hpiece
      decide
    rcases hq.of_step hline with rfl | hq
    · obtain rfl := Option.some.inj hpiece
      cases hlexeme
    rcases hq.of_step hnumber with rfl | hq
    · obtain rfl := Option.some.inj hpiece
      cases hlexeme
    · rw [hq.eq_of_nil rfl] at hpiece
      cases hpiece
  have hfails : (scan text).violation? .module = some ⟨4, .restriction .legacyNumber⟩ := by
    decide +kernel
  have hreturn : 0x0D ∉ Utf8.encode text := by decide
  have hbytes : Utf8.ofString "/b/\r\n07" = Utf8.withReturns (Utf8.encode text) := by
    decide +kernel
  rw [hbytes, attempt_withReturns hreturn fun text htext => Utf8.encode_injective htext ▸ hbreaks,
    probe_encode, judge, hfails]
  rfl

end ParseGoal.Ecma
