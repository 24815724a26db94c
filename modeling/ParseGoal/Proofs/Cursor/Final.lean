import ParseGoal.Proofs.Cursor.Run
import ParseGoal.Proofs.Ecma.Opacity

/-!
Faults inside a text are final. Where a closing bracket matches none, or a line ends within a string
or a regular expression, no text behind it changes what has been found, for nothing before the
fault looks that far ahead.
-/
namespace ParseGoal.Ecma

variable {context : Context} {c quote : Char} {rest text : List Char}

/-! Literals that the end of a line breaks. -/

/--
A string without its end comes to the end of a line and does not look behind it, or it comes to the end
of the text, maybe behind a backslash.
-/
theorem stringParts_of_open (h : (stringParts quote text).2 = none) :
    (text ≠ [] ∧ ∀ more, stringParts quote (text ++ more) = stringParts quote text) ∨
      ∃ tail, (tail = [] ∨ tail = ['\\']) ∧ text = stringText (stringParts quote text).1 ++ tail := by
  fun_induction stringParts quote text with
  | case1 => exact .inr ⟨[], .inl rfl, rfl⟩
  | case2 => exact .inr ⟨['\\'], .inr rfl, rfl⟩
  | case3 rest parts after heq ih =>
    rw [heq] at ih
    obtain ⟨-, hmore⟩ | ⟨tail, htail, htext⟩ := ih h
    · refine .inl ⟨List.cons_ne_nil _ _, fun more => ?_⟩
      simp only [List.cons_append, stringParts_crlf, hmore]
    · refine .inr ⟨tail, htail, ?_⟩
      rw [stringText_cons, List.append_assoc, ← htext]
      rfl
  | case4 d rest hline parts after heq ih =>
    rw [heq] at ih
    obtain ⟨hne, hmore⟩ | ⟨tail, htail, htext⟩ := ih h
    · refine .inl ⟨List.cons_ne_nil _ _, fun more => ?_⟩
      have hcrlf : ¬ (d = '\r' ∧ (rest ++ more).head? = some '\n') := by
        rintro ⟨rfl, hhead⟩
        rw [List.head?_append_of_ne_nil _ hne] at hhead
        obtain ⟨after', rfl⟩ := List.head?_eq_some_iff.1 hhead
        exact hline after' rfl rfl
      simp only [List.cons_append, stringParts_escape hcrlf, hmore]
    · refine .inr ⟨tail, htail, ?_⟩
      rw [stringText_cons, List.append_assoc, ← htext]
      rfl
  | case5 rest hslash => cases h
  | case6 c rest hslash hclose hline =>
    refine .inl ⟨List.cons_ne_nil _ _, fun more => ?_⟩
    rw [List.cons_append, stringParts.eq_def]
    dsimp only
    rw [if_neg hslash, if_neg hclose, if_pos hline]
  | case7 c rest hslash hclose hline parts after heq ih =>
    rw [heq] at ih
    obtain ⟨-, hmore⟩ | ⟨tail, htail, htext⟩ := ih h
    · refine .inl ⟨List.cons_ne_nil _ _, fun more => ?_⟩
      simp only [List.cons_append, stringParts_plain hslash hclose hline, hmore]
    · refine .inr ⟨tail, htail, ?_⟩
      rw [stringText_cons, List.append_assoc, ← htext]
      rfl

namespace Cursor

variable {b : Bytes} {m last : Cursor} {pos stop : Nat} {fault : Located Fault}

/-- Whether the cursor has come to the end of a line. -/
def AtLineEnd (b : Bytes) (pos : Nat) : Prop := b[pos]? = some (byte '\n') ∨ b[pos]? = some (byte '\r')

theorem not_atLineEnd_of_none (h : b[pos]? = none) : ¬ AtLineEnd b pos := by
  rw [AtLineEnd, h]
  nofun

/-- A string that stops at the end of a line does not look behind it. -/
theorem stringParts_of_lineEnd (hquote : quote = '\'' ∨ quote = '"') {start : Nat} (h : Reads b pos text)
    (hstop : string b (byte quote) start (m.seek pos) = some (.error (last, fault)))
    (hline : AtLineEnd b last.pos) (more : List Char) :
    stringParts quote (text ++ more) = ((stringParts quote text).1, none) := by
  have hends : StringEnds start pos m (string b (byte quote) start (m.seek pos)) (stringParts quote text) :=
    string_eq hquote h
  rw [hstop] at hends
  have hopen : (stringParts quote text).2 = none := by
    revert hends
    obtain ⟨parts, _ | after⟩ := stringParts quote text
    · exact fun _ => rfl
    · exact nofun
  have hopen' : stringParts quote text = ((stringParts quote text).1, none) := Prod.ext rfl hopen
  obtain ⟨-, hmore⟩ | ⟨tail, htail, htext⟩ := stringParts_of_open hopen
  · exact (hmore more).trans hopen'
  · rw [hopen'] at hends
    obtain ⟨stop, hle, heq⟩ := hends
    obtain ⟨k, rfl⟩ := Nat.exists_eq_add_of_le hle
    have hpos : last.pos = pos + Text.byteSize (stringText (stringParts quote text).1) + k := by
      have hpair := Except.error.inj (Option.some.inj heq)
      rw [(Prod.mk.inj hpair).1]
      rfl
    have htail' : Reads b (pos + Text.byteSize (stringText (stringParts quote text).1)) tail :=
      Reads.append (htext ▸ h)
    rw [hpos, AtLineEnd, htail'.getElem? k] at hline
    have hnot : ¬ ((Utf8.encode tail)[k]? = some (byte '\n') ∨ (Utf8.encode tail)[k]? = some (byte '\r')) := by
      rcases htail with rfl | rfl
      · exact nofun
      · cases k with
        | zero => decide
        | succ k => exact nofun
    exact absurd hline hnot

/-- A regular expression that stops at the end of a line does not look behind it. -/
theorem regexBody_of_lineEnd {inClass : Bool} (h : Reads b pos text)
    (hstop : b.regexEnd inClass pos = some (.error stop)) (hline : AtLineEnd b stop) :
    text ≠ [] ∧ ∀ more, regexBody inClass (text ++ more) = none := by
  induction inClass, text using regexBody_induction generalizing pos with
  | nil inClass =>
    rw [Bytes.regexEnd, h.getElem?_end] at hstop
    obtain rfl : pos = stop := by simpa using hstop
    exact absurd hline (not_atLineEnd_of_none h.getElem?_end)
  | line inClass c rest hend => exact ⟨List.cons_ne_nil _ _, fun more => regexBody_line hend⟩
  | backslash inClass =>
    obtain ⟨hnext, hend⟩ := regexEnd_backslash inClass h
    obtain rfl : pos + 2 = stop := by simpa [hend] using hstop
    exact absurd hline (not_atLineEnd_of_none hnext)
  | escape inClass d rest ih =>
    rw [regexEnd_escape h] at hstop
    obtain ⟨-, hnone⟩ := ih (h.next (by decide)).cons hstop
    refine ⟨List.cons_ne_nil _ _, fun more => ?_⟩
    rw [List.cons_append, List.cons_append, regexBody_escape, hnone]
    rfl
  | close rest => cases (regexEnd_close h).symm.trans hstop
  | inner inClass c rest hc ih =>
    rw [regexEnd_inner hc h] at hstop
    obtain ⟨-, hnone⟩ := ih h.cons hstop
    refine ⟨List.cons_ne_nil _ _, fun more => ?_⟩
    rw [List.cons_append, regexBody_inner hc, hnone]
    rfl

/-! The lexemes that are such faults. -/

theorem step_quote (hc : c = '\'' ∨ c = '"') (h : Reads b m.pos (c :: rest)) :
    m.step b = (string b (byte c) m.pos (m.seek (m.pos + 1))).bind fun
      | .ok m => some (.ok (m.token .literal))
      | .error fault => some (.error fault) := by
  have hascii : c.toNat < 0x80 := by rcases hc with rfl | rfl <;> decide
  rw [step, h.get.trans (firstByte_ascii hascii rest)]
  rcases hc with rfl | rfl <;> rfl

theorem step_regex (hline : rest.head? ≠ some '/') (hblock : rest.head? ≠ some '*')
    (hregex : m.state.context.regexAllowed = true) (h : Reads b m.pos ('/' :: rest)) :
    m.step b = m.regex b m.pos := by
  have hline' : ¬ b[m.pos + 1]? = some (byte '/') := fun hnext =>
    hline ((h.getElem?_next (by decide) (by decide)).1 hnext)
  have hblock' : ¬ b[m.pos + 1]? = some (byte '*') := fun hnext =>
    hblock ((h.getElem?_next (by decide) (by decide)).1 hnext)
  have hregex' : regexAfter m.state.previous = true := hregex
  have hfirst : b[m.pos]? = some (byte '/') := h.get.trans (firstByte_ascii (by decide) rest)
  have hhtml : m.startsHtml b (byte '/') m.pos = some false := rfl
  rw [step, hfirst]
  simp only [Option.bind_eq_bind, Option.bind_some, hhtml]
  rw [if_neg (by decide), if_neg (by decide)]
  simp only [true_and, if_neg hline', if_neg hblock', if_true, if_pos hregex']

end Cursor

/-- The lexemes that a state fails at. -/
theorem State.lexeme_of_error {s : State} {start : Nat} {lexeme : Lexeme} {fault : Located Fault}
    (h : (s.take start lexeme rest).next = .error fault)
    (hinside : ∀ stop, lexeme = .templateTail stop → s.frames ≠ []) :
    fault.what = .openComment ∨ fault.what = .openTemplate ∨
      (∃ parts, lexeme = .openString parts ∧ fault.what = .openString) ∨
      (lexeme = .openRegex ∧ fault.what = .openRegex) ∨ ∃ d, lexeme = .closer d := by
  cases lexeme with
  | openComment => exact .inl (Except.error.inj h ▸ rfl)
  | openString parts => exact .inr (.inr (.inl ⟨parts, rfl, Except.error.inj h ▸ rfl⟩))
  | openRegex => exact .inr (.inr (.inr (.inl ⟨rfl, Except.error.inj h ▸ rfl⟩)))
  | closer d => exact .inr (.inr (.inr (.inr ⟨d, rfl⟩)))
  | template stop =>
    cases stop with
    | none => exact .inr (.inl (Except.error.inj h ▸ rfl))
    | some stop => cases h
  | templateTail stop =>
    obtain ⟨frame, outer, hframes⟩ := List.exists_cons_of_ne_nil (hinside stop rfl)
    rw [State.take, State.takeTail, hframes] at h
    cases stop with
    | none => exact .inr (.inl (Except.error.inj h ▸ rfl))
    | some stop => cases h
  | _ => cases h

/-- A lexeme that stays the same whatever follows it, and into which nothing before it looks. -/
structure Conclusive (context : Context) (c : Char) (rest : List Char) : Prop where
  first : c ∈ ['\'', '"', '/', ')', ']', '\x7d']
  lexeme (more : List Char) : (cut context c (rest ++ more)).lexeme = (cut context c rest).lexeme
  isTrivia : (cut context c rest).lexeme.isTrivia = false

theorem Conclusive.junction (h : Conclusive context c rest) (more : List Char) :
    Junction (c :: rest) (c :: (rest ++ more)) (c :: (rest ++ more)) 0 := by
  have hpassed {P : Prop} (htrivia : (cut context c rest).lexeme.isTrivia = true) : P :=
    absurd (htrivia.symm.trans h.isTrivia) nofun
  have halike : Alike (c :: rest) (c :: (rest ++ more)) :=
    ⟨.cons context (h.lexeme more).symm hpassed, operandFollows_cons context (h.lexeme more).symm hpassed⟩
  have hcovers (before : List Char) : Covers (before ++ c :: rest) (before ++ c :: (rest ++ more)) := by
    by_cases hslash : c = '/'
    · exact Covers.append_barrier (by simp [barriers, hslash]) before _ _
    · refine Covers.append before _ ?_ _
      have hfirst := h.first
      simp only [List.mem_cons, List.not_mem_nil, or_false, hslash, false_or] at hfirst
      rcases hfirst with rfl | rfl | rfl | rfl | rfl <;> decide
  have hfeed : c ≠ '\n' := by
    rintro rfl
    exact absurd h.first (by decide)
  exact {
    covers := hcovers
    alike := halike
    alike_landing := halike
    lands s offset := .refl _
    line hnone := by simp [lineText, hfeed] at hnone }

/-- The scan comes to such a lexeme as before, and if that is a fault, it finds the same as before. -/
theorem scan_append_of_conclusive {s : State} {offset : Nat} {found : List Finding} {fault : Located Fault}
    (h : Place.Reaches (.start text) found ⟨s, offset, c :: rest⟩) (hconclusive : Conclusive s.context c rest)
    (hfault : (s.take offset (cut s.context c rest).lexeme (cut s.context c rest).rest).next = .error fault)
    (more : List Char) : scan (text ++ more) = scan text := by
  obtain ⟨before, hbefore, -⟩ := h.exists_append
  have htext : text = (interpreterLine text ++ before) ++ (c :: rest) := by
    rw [List.append_assoc]
    exact (interpreterLine_append text).symm.trans (congrArg _ hbefore)
  have hhash : (c :: (rest ++ more)).head? ≠ some '#' := by
    rintro ⟨⟩
    exact absurd hconclusive.first (by decide)
  obtain ⟨last, hembeds, hreaches⟩ := h.splice_start (hconclusive.junction more) hhash htext
  have hwhole : (interpreterLine text ++ before) ++ (c :: (rest ++ more)) = text ++ more := by
    rw [← List.cons_append, ← List.append_assoc, ← htext]
  have htake (later : List Char) : s.take offset (cut s.context c rest).lexeme later =
      s.take offset (cut s.context c rest).lexeme (cut s.context c rest).rest :=
    State.take_congr fun next hnext => absurd (hfault.symm.trans hnext) nofun
  have hsame : scanFrom s offset (c :: (rest ++ more)) = scanFrom s offset (c :: rest) := by
    rw [scanFrom, scanFrom, hconclusive.lexeme more]
    simp only [htake, hfault]
  rw [← hwhole]
  calc scan ((interpreterLine text ++ before) ++ (c :: (rest ++ more)))
      _ = (scanFrom last offset (c :: (rest ++ more))).after found := hreaches.scan
      _ = (scanFrom s offset (c :: rest)).after found := by rw [scanFrom_of_embeds hembeds, hsame]
      _ = scan text := h.scan.symm

/-- What is found in a text says the same in front of another one. -/
theorem judge_append_of_scan {more : List Char} (h : scan (text ++ more) = scan text) (goal : Goal) :
    judge (text ++ more) goal = judge text goal := by
  rw [judge, judge, h]
  cases hviolation : (scan text).violation? goal with
  | none => rfl
  | some v =>
    have hlt := offset_lt_of_scan text goal v hviolation
    simp only [Position.ofOffset_append hlt.le]

namespace Cursor

variable {b : Bytes} {m last : Cursor} {fault : Located Fault}

/-- A run that ends in a fault has come to a lexeme that is the fault, unless a bracket is left open. -/
theorem exists_step_of_fault (h : Reads b m.pos text) (hrun : m.run b = some (last, some fault)) :
    (∃ s : State, s.unclosed? = some fault) ∨ ∃ (stop : Cursor) (c : Char) (rest : List Char)
      (found : List Finding), Place.Reaches ⟨m.state, m.pos, text⟩ found ⟨stop.state, stop.pos, c :: rest⟩ ∧
        Reads b stop.pos (c :: rest) ∧ stop.step b = some (.error (last, fault)) := by
  generalize hs : m.state = s, hoffset : m.pos = offset at h
  fun_induction scanFrom s offset text generalizing m with
  | case1 =>
    subst hs hoffset
    rw [run, if_neg h.not_lt_length] at hrun
    exact .inl ⟨_, (Prod.mk.inj (Option.some.inj hrun)).2⟩
  | case2 s offset c rest piece turn fault' =>
    rename_i hturn
    subst hs hoffset
    obtain ⟨last', hstep, -⟩ := (step_takes h).of_error hturn
    rw [run, if_pos h.lt_length, hstep] at hrun
    obtain ⟨rfl, hfault⟩ := Prod.mk.inj (Option.some.inj hrun)
    obtain rfl := Option.some.inj hfault
    exact .inr ⟨m, c, rest, [], .refl _, h, hstep⟩
  | case3 s offset c rest piece turn next hturn =>
    rename_i ih
    subst hs hoffset
    obtain ⟨moved, hstep, hstate, hpos, -⟩ := (step_takes h).of_ok hturn
    rw [run, if_pos h.lt_length, hstep] at hrun
    obtain hunclosed | ⟨stop, d, after, found, hreaches, hstop⟩ :=
      ih hrun hstate hpos (reads_cut m.state.context h)
    · exact .inl hunclosed
    · exact .inr ⟨stop, d, after, _, .step (.intro rfl (by rw [← hturn])) hreaches, hstop⟩

/-- Faults inside a text: closing brackets that match none, and literals that the end of a line breaks. -/
def IsFinal (b : Bytes) (pos : Nat) : Fault → Prop
  | .unexpected _ | .mismatched _ _ => True
  | .openString | .openRegex => AtLineEnd b pos
  | .openComment | .openTemplate | .unclosed _ => False

section

variable (h : Reads b m.pos (c :: rest)) (hstep : m.step b = some (.error (last, fault)))

include h hstep

theorem take_of_fault : (m.state.take m.pos (cut m.state.context c rest).lexeme
    (cut m.state.context c rest).rest).next = .error fault := by
  have htakes := step_takes h
  rw [hstep] at htakes
  cases hnext : (m.state.take m.pos (cut m.state.context c rest).lexeme
    (cut m.state.context c rest).rest).next with
  | error fault' =>
    obtain ⟨last', heq, -⟩ := htakes.of_error hnext
    exact congrArg _ (Prod.mk.inj (Except.error.inj (Option.some.inj heq))).2.symm
  | ok next =>
    obtain ⟨moved, heq, -⟩ := htakes.of_ok hnext
    cases heq

theorem conclusive_of_string (hquote : c = '\'' ∨ c = '"') (hline : AtLineEnd b last.pos) :
    Conclusive m.state.context c rest := by
  have hascii : c.toNat < 0x80 := by rcases hquote with rfl | rfl <;> decide
  have hstring : string b (byte c) m.pos (m.seek (m.pos + 1)) = some (.error (last, fault)) := by
    rw [step_quote hquote h] at hstep
    obtain ⟨_ | next, houtcome, heq⟩ := Option.bind_eq_some_iff.1 hstep
    · exact houtcome.trans heq
    · cases heq
  have hread := stringParts_of_lineEnd hquote (h.next hascii) hstring hline
  have hlexeme (more : List Char) : (cut m.state.context c (rest ++ more)).lexeme =
      .openString (stringParts c rest).1 := by
    rw [cut_quote hquote, cutString, hread more]
  have hfirst := hlexeme []
  rw [List.append_nil] at hfirst
  exact {
    first := by rcases hquote with rfl | rfl <;> decide
    lexeme more := (hlexeme more).trans hfirst.symm
    isTrivia := by rw [hfirst]; rfl }

theorem conclusive_of_regex (hlexeme : (cut m.state.context c rest).lexeme = .openRegex)
    (hline : AtLineEnd b last.pos) : Conclusive m.state.context c rest := by
  have htells := tells_cut m.state.context c rest
  rw [hlexeme] at htells
  obtain ⟨rfl, hslash, hstar, hregex⟩ := htells
  obtain ⟨stop, hend, rfl⟩ : ∃ stop, b.regexEnd false (m.pos + 1) = some (.error stop) ∧ last.pos = stop := by
    rw [step_regex hslash hstar hregex h, regex] at hstep
    obtain ⟨outcome, houtcome, heq⟩ := Option.bind_eq_some_iff.1 hstep
    cases outcome with
    | error stop =>
      have hpair := Except.error.inj (Option.some.inj heq)
      exact ⟨stop, houtcome, by rw [← (Prod.mk.inj hpair).1]; rfl⟩
    | ok pos =>
      obtain ⟨flags, -, heq⟩ := Option.bind_eq_some_iff.1 heq
      cases heq
  obtain ⟨hne, hread⟩ := regexBody_of_lineEnd (h.next (by decide)) hend hline
  have hagain (more : List Char) : (cut m.state.context '/' (rest ++ more)).lexeme = .openRegex := by
    have hhead : (rest ++ more).head? = rest.head? := List.head?_append_of_ne_nil _ hne
    rw [cut_slash, cutSlash, hhead, if_neg hslash, if_neg hstar, if_pos hregex, hread more]
  exact {
    first := by decide
    lexeme more := (hagain more).trans hlexeme.symm
    isTrivia := by rw [hlexeme]; rfl }

/-- A step that ends in such a fault is at a lexeme that stays whatever follows. -/
theorem conclusive_of_isFinal (hfinal : IsFinal b last.pos fault.what) : Conclusive m.state.context c rest := by
  have htells := tells_cut m.state.context c rest
  have hinside (stop : Option TemplateStop)
      (hlexeme : (cut m.state.context c rest).lexeme = .templateTail stop) : m.state.frames ≠ [] := by
    rw [hlexeme] at htells
    intro hnil
    have hinside : m.state.context.inSubstitution = true := htells
    simp [State.context, hnil] at hinside
  obtain hcomment | htemplate | ⟨parts, hlexeme, hwhat⟩ | ⟨hlexeme, hwhat⟩ | ⟨d, hlexeme⟩ :=
    State.lexeme_of_error (take_of_fault h hstep) hinside
  · rw [hcomment] at hfinal
    exact hfinal.elim
  · rw [htemplate] at hfinal
    exact hfinal.elim
  · rw [hwhat] at hfinal
    rw [hlexeme] at htells
    exact conclusive_of_string h hstep htells hfinal
  · rw [hwhat] at hfinal
    exact conclusive_of_regex h hstep hlexeme hfinal
  · rw [hlexeme] at htells
    obtain ⟨rfl, hsubstitution⟩ := htells
    have hinside (hcurly : d = .curly) : m.state.context.inSubstitution = false := by
      rw [hcurly] at hsubstitution
      exact Bool.eq_false_iff.2 fun hinside => hsubstitution ⟨rfl, hinside⟩
    have hagain (more : List Char) : (cut m.state.context d.closer more).lexeme = .closer d := by
      rw [cut_closer hinside]
    exact {
      first := by cases d <;> decide
      lexeme more := (hagain _).trans hlexeme.symm
      isTrivia := by rw [hlexeme]; rfl }

end

/--
A text whose scan stops at a closing bracket that matches none, or at the end of a line within a string or
a regular expression, fails as it does whatever stands behind it.
-/
theorem attempt_append_of_fault (hstart : start (Utf8.encode text) = some m)
    (hrun : m.run (Utf8.encode text) = some (last, some fault))
    (hfinal : IsFinal (Utf8.encode text) last.pos fault.what) (more : List Char) (goal : Goal) :
    probe.attempt (Utf8.encode text ++ Utf8.encode more) goal = probe.attempt (Utf8.encode text) goal := by
  obtain rfl := Option.some.inj (hstart.symm.trans (start_eq text))
  obtain ⟨s, hunclosed⟩ | ⟨stop, c, rest, found, hreaches, hreads, hstep⟩ :=
    exists_step_of_fault (reads_start text) hrun
  · obtain ⟨frame, -, rfl⟩ := Option.map_eq_some_iff.1 hunclosed
    dsimp only at hfinal
    split at hfinal <;> exact hfinal.elim
  · have hscan := scan_append_of_conclusive hreaches (conclusive_of_isFinal hreads hstep hfinal)
      (take_of_fault hreads hstep) more
    rw [← Utf8.encode_append, probe_encode, probe_encode, judge_append_of_scan hscan]

/-- A quote on the next line does not close a string. -/
theorem attempt_append_of_fault_of_string :
    probe.attempt (Utf8.ofString "'\n" ++ Utf8.ofString "'") .script =
      .error ⟨⟨1, 1, 0⟩, "unterminated string literal"⟩ := by
  have hreads : Reads (Utf8.ofString "'\n") 0 ['\'', '\n'] := .start _
  have hrun : run (Utf8.ofString "'\n") { pos := 0 } = some ({ pos := 1 }, some ⟨0, .openString⟩) := by
    rw [run, if_pos (by decide), step_quote (.inl rfl) hreads, string]
    rfl
  have hfault : (scan "'\n".toList).violation? .script = some ⟨0, .fault .openString⟩ := by decide +kernel
  have hfails : probe.attempt (Utf8.ofString "'\n") .script =
      .error ⟨⟨1, 1, 0⟩, "unterminated string literal"⟩ := by
    rw [Utf8.ofString, probe_encode, judge, hfault]
    rfl
  exact (attempt_append_of_fault (start_eq "'\n".toList) hrun (.inl (by decide)) "'".toList .script).trans hfails

end Cursor
end ParseGoal.Ecma
