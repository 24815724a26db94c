import ParseGoal.Proofs.Ecma.Nesting
import ParseGoal.Proofs.Ecma.Operand
import ParseGoal.Proofs.Ecma.Tail

/-!
Heritages of classes, in parentheses. A scan keeps one class at a time that waits for its body. Within the heritage
of a class, the word for another one takes its place, and so the brace behind the heritage opens a function's body.
-/
namespace ParseGoal.Ecma

/-- Whether a module rejects any of some findings. -/
def failsModule (found : List Finding) : Bool := found.any (·.what.goal = .module)

theorem failsModule_append (found later : List Finding) :
    failsModule (found ++ later) = (failsModule found || failsModule later) := List.any_append

theorem failsModule_toList (r : Option Restriction) (start : Nat) :
    failsModule (r.toList.map (⟨start, ·⟩)) = r.any (·.goal = .module) := by
  cases r with
  | none => rfl
  | some r => simp [failsModule]

theorem judge_module_iff {text : List Char} :
    judge text .module = .ok () ↔ (scan text).fault = none ∧ failsModule (scan text).findings = false := by
  rw [judge_eq_ok_iff, Scan.violation?_eq_none_iff, Scan.findingsOf, failsModule, and_comm, List.filter_eq_nil_iff,
    List.any_eq_false]

/-- What of the restrictions on a word fails a module. -/
theorem State.any_restriction? (s : State) (word : String) (rest : List Char) :
    (s.restriction? word rest).any (·.goal = .module) =
      if word = "with" then nextSignificant rest == some '('
      else if word = "let" then
        s.previous == some (.word "var") || s.previous == some (.word "function")
      else strictWords.contains word && s.namesBinding rest := by
  rw [restriction?]
  -- Every word is in one branch of both sides, or in none.
  split_ifs <;> simp_all [Restriction.goal, strictWords]

/-- Whether a lexeme makes a class wait for its body. -/
def State.startsClass (s : State) (piece : Cut) : Bool := piece.lexeme == .word "class" && !s.afterPoint

/-- At the word for a class, not after a point. -/
def Place.isClassKeyword (p : Place) : Bool := p.meets State.startsClass

/--
The state `t` is `s` within parentheses. In front of them a class waits for its body, as long as no other one does
within.
-/
structure State.Within (waiting : Bool) (s t : State) : Prop where
  frames : t.frames.map Frame.enclosure = s.frames.map Frame.enclosure ++ [.group]
  previous : t.previous = s.previous ∨ s.previous = none ∧ t.previous = some (.punctuator '(')
  lineStart : t.lineStart = true → s.lineStart = true
  controlNext : t.controlNext = s.controlNext
  classDepth : t.classDepth = if waiting then some 0 else s.classDepth.map (· + 1)
  fresh : waiting = true → s.classDepth = none

namespace State.Within

variable {waiting : Bool} {s t : State}

theorem depth (h : Within waiting s t) : t.depth = s.depth + 1 := by
  simpa [State.depth] using congrArg List.length h.frames

theorem previous_eq_some (h : Within waiting s t) {token : Token} (htoken : token ≠ .punctuator '(') :
    t.previous = some token ↔ s.previous = some token := by
  rcases h.previous with heq | ⟨hnone, heq⟩
  · rw [heq]
  · simp [hnone, heq, htoken.symm]

theorem innermost (h : Within waiting s t) :
    t.frames.head?.map Frame.enclosure = (s.frames.head?.map Frame.enclosure).getD .group := by
  rw [← List.head?_map, h.frames, ← List.head?_map]
  cases s.frames <;> rfl

theorem afterPoint (h : Within waiting s t) : t.afterPoint = s.afterPoint := by
  rw [State.afterPoint, State.afterPoint, Bool.eq_iff_iff, beq_iff_eq, beq_iff_eq]
  exact h.previous_eq_some (by decide)

theorem namesBinding (h : Within waiting s t) (rest : List Char) : t.namesBinding rest = s.namesBinding rest := by
  rw [State.namesBinding, State.namesBinding, h.innermost]
  cases s.frames with
  | nil => rfl
  | cons frame outer => rfl

theorem enclosureOf (h : Within waiting s t) (d : Delimiter) : t.enclosureOf d = s.enclosureOf d := by
  have hround : t.previous = some (.close .round) ↔ s.previous = some (.close .round) :=
    h.previous_eq_some (by decide)
  have harrow : t.previous = some .arrow ↔ s.previous = some .arrow := h.previous_eq_some (by decide)
  have hclass : t.classDepth = some t.depth ↔ s.classDepth = some s.depth := by
    rw [h.classDepth, h.depth]
    cases waiting with
    | false => cases s.classDepth <;> simp
    | true => simp [h.fresh rfl]
  simp only [State.enclosureOf, h.controlNext, hclass, hround, harrow]

/-- A word fails a module within the parentheses if it does without. -/
theorem any_restriction? (h : Within waiting s t) (word : String) (rest : List Char) :
    (t.restriction? word rest).any (·.goal = .module) = (s.restriction? word rest).any (·.goal = .module) := by
  have hsame {token : Token} (htoken : token ≠ .punctuator '(') :
      (t.previous == some token) = (s.previous == some token) := by
    rw [Bool.eq_iff_iff, beq_iff_eq, beq_iff_eq]
    exact h.previous_eq_some htoken
  rw [State.any_restriction?, State.any_restriction?, h.namesBinding, hsame (by decide), hsame (by decide)]

/-! What changes the state keeps it within. -/

theorem afterToken (h : Within waiting s t) (token : Token) :
    Within waiting (s.afterToken token) (t.afterToken token) where
  frames := h.frames
  previous := .inl rfl
  lineStart := id
  controlNext := rfl
  classDepth := h.classDepth
  fresh := h.fresh

theorem afterNewline (h : Within waiting s t) : Within waiting s.afterNewline t.afterNewline where
  frames := h.frames
  previous := h.previous
  lineStart := id
  controlNext := h.controlNext
  classDepth := h.classDepth
  fresh := h.fresh

/-- Which arrows are open does not matter. -/
theorem arrows (h : Within waiting s t) (depths depths' : List Nat) :
    Within waiting { s with arrowDepths := depths } { t with arrowDepths := depths' } :=
  ⟨h.frames, h.previous, h.lineStart, h.controlNext, h.classDepth, h.fresh⟩

theorem push (h : Within waiting s t) (enclosure : Enclosure) (start start' : Nat) :
    Within waiting (s.push enclosure start) (t.push enclosure start') where
  frames := by simp [State.push, h.frames]
  previous := h.previous
  lineStart := h.lineStart
  controlNext := h.controlNext
  classDepth := h.classDepth
  fresh := h.fresh

/-- After the innermost bracket. -/
theorem pop {frames frames' : List Frame} (h : Within waiting s t)
    (hframes : frames'.map Frame.enclosure = frames.map Frame.enclosure ++ [.group]) :
    Within waiting ({ s with frames := frames }.endArrows (frames.length + 1))
      ({ t with frames := frames' }.endArrows (frames'.length + 1)) :=
  ⟨hframes, h.previous, h.lineStart, h.controlNext, h.classDepth, h.fresh⟩

theorem takeOpener (h : Within waiting s t) (start start' : Nat) (d : Delimiter) :
    Within waiting (s.takeOpener start d) (t.takeOpener start' d) := by
  rw [State.takeOpener, State.takeOpener, h.enclosureOf]
  split
  · next hbody =>
    -- Only a class that comes within opens its body within, and then none waits in front.
    have hclass : s.classDepth = some s.depth := by
      cases d with
      | round =>
        rw [State.enclosureOf] at hbody
        split at hbody <;> cases hbody
      | square => cases hbody
      | curly =>
        by_contra hclass
        rw [State.enclosureOf, if_neg hclass] at hbody
        split at hbody <;> cases hbody
    obtain rfl : waiting = false := Bool.eq_false_iff.2 fun hwaiting => by simp [h.fresh hwaiting] at hclass
    have hcleared : Within false { s with classDepth := none } { t with classDepth := none } :=
      ⟨h.frames, h.previous, h.lineStart, h.controlNext, rfl, fun hwaiting => absurd hwaiting Bool.false_ne_true⟩
    exact (hcleared.push _ _ _).afterToken _
  · exact (h.push _ _ _).afterToken _

theorem takeCloser (h : Within waiting s t) {start : Nat} (start' : Nat) {d : Delimiter} {next : State}
    (htake : s.takeCloser start d = .ok next) :
    ∃ next', t.takeCloser start' d = .ok next' ∧ Within waiting next next' := by
  have hframes := h.frames
  rw [State.takeCloser] at htake ⊢
  cases hs : s.frames with
  | nil => simp [hs] at htake
  | cons frame outer =>
    rw [hs, List.map_cons, List.cons_append] at hframes
    obtain ⟨frame', outer', ht, henclosure, houter⟩ := List.map_eq_cons_iff.1 hframes
    simp only [hs, ht, henclosure] at htake ⊢
    split at htake
    · next hd =>
      cases htake
      rw [if_pos hd]
      exact ⟨_, rfl, (h.pop houter).afterToken _⟩
    · cases htake

theorem takeTemplate (h : Within waiting s t) {start : Nat} (start' : Nat) {stop : Option TemplateStop}
    {found : List Finding} {next : State} (htake : s.takeTemplate start stop = ⟨found, .ok next⟩) :
    ∃ found' next', t.takeTemplate start' stop = ⟨found', .ok next'⟩ ∧
      failsModule found' = failsModule found ∧ Within waiting next next' := by
  match stop with
  | none => cases htake
  | some .close =>
    cases htake
    exact ⟨_, _, rfl, rfl, h.afterToken _⟩
  | some .hole =>
    cases htake
    exact ⟨_, _, rfl, rfl, (h.push _ _ _).afterToken _⟩

theorem takeTail (h : Within waiting s t) {start : Nat} (start' : Nat) {stop : Option TemplateStop}
    {found : List Finding} {next : State} (htake : s.takeTail start stop = ⟨found, .ok next⟩) :
    ∃ found' next', t.takeTail start' stop = ⟨found', .ok next'⟩ ∧
      failsModule found' = failsModule found ∧ Within waiting next next' := by
  have hframes := h.frames
  rw [State.takeTail] at htake ⊢
  cases hs : s.frames with
  | nil => simp [hs] at htake
  | cons frame outer =>
    rw [hs, List.map_cons, List.cons_append] at hframes
    obtain ⟨frame', outer', ht, -, houter⟩ := List.map_eq_cons_iff.1 hframes
    simp only [hs, ht] at htake ⊢
    exact (h.pop houter).takeTemplate _ htake

theorem afterWord (h : Within waiting s t) (word : String) :
    Within (waiting && !(word == "class" && !s.afterPoint)) (s.afterWord word) (t.afterWord word) := by
  rw [State.afterWord, State.afterWord, h.afterPoint]
  cases s.afterPoint with
  | true => simpa using h.afterToken (.word word)
  | false =>
    have hfor : (t.previous == some (.word "for")) = (s.previous == some (.word "for")) := by
      rw [Bool.eq_iff_iff, beq_iff_eq, beq_iff_eq]
      exact h.previous_eq_some (by decide)
    have hhead : t.opensHead word = s.opensHead word := by rw [State.opensHead, State.opensHead, hfor]
    have htoken := h.afterToken (.word word)
    by_cases hword : word = "class"
    · subst hword
      exact { htoken with
        controlNext := hhead
        classDepth := by simp [h.depth]
        fresh := by simp }
    · exact { htoken with
        controlNext := hhead
        classDepth := by simp [hword, h.classDepth]
        fresh := by simpa [hword] using h.fresh }

/-- A word fails alike, and may end the waiting. -/
theorem takeWord (h : Within waiting s t) {start : Nat} (start' : Nat) {word : String} {rest : List Char}
    {found : List Finding} {next : State} (htake : s.take start (.word word) rest = ⟨found, .ok next⟩) :
    ∃ found' next', t.take start' (.word word) rest = ⟨found', .ok next'⟩ ∧
      failsModule found' = failsModule found ∧
      Within (waiting && !(word == "class" && !s.afterPoint)) next next' := by
  cases htake
  refine ⟨_, _, rfl, ?_, h.afterWord word⟩
  rw [failsModule_toList, failsModule_toList, h.afterPoint]
  split
  · rfl
  · exact h.any_restriction? word rest

end State.Within

/-- Whether a string has octal escapes does not depend on where it stands. -/
theorem isEmpty_octalOffsets (start start' : Nat) (parts : List StringPart) :
    (octalOffsets start parts).isEmpty = (octalOffsets start' parts).isEmpty := by
  induction parts generalizing start start' with
  | nil => rfl
  | cons part parts ih =>
    rw [octalOffsets, octalOffsets]
    split
    · rfl
    · exact ih _ _

theorem failsModule_octalOffsets (start start' : Nat) (parts : List StringPart) :
    failsModule ((octalOffsets start parts).map (⟨·, .octalEscape⟩)) =
      failsModule ((octalOffsets start' parts).map (⟨·, .octalEscape⟩)) := by
  have hany (offsets : List Nat) :
      failsModule (offsets.map (⟨·, .octalEscape⟩)) = !offsets.isEmpty := by
    cases offsets <;> rfl
  rw [hany, hany, isEmpty_octalOffsets]

/-- Only a comment in the style of HTML has to start a line. -/
theorem cut_of_lineStart {regexAllowed inSubstitution : Bool} {c : Char} {rest : List Char}
    (h : (cut ⟨regexAllowed, true, inSubstitution⟩ c rest).lexeme ≠ .htmlComment) :
    cut ⟨regexAllowed, false, inSubstitution⟩ c rest = cut ⟨regexAllowed, true, inSubstitution⟩ c rest := by
  have hslash : cutSlash ⟨regexAllowed, false, inSubstitution⟩ rest =
      cutSlash ⟨regexAllowed, true, inSubstitution⟩ rest := rfl
  by_cases hc : c = '-'
  · subst hc
    have hcloses : ¬ ['-', '>'].isPrefixOf rest = true := fun hcloses => h <| by
      rw [cut_sign _ (by decide), if_neg (by simp), if_pos ⟨rfl, rfl, hcloses⟩]
    rw [cut_sign _ (by decide), cut_sign _ (by decide)]
    simp [hcloses]
  · simp only [cut, hc, false_and, if_false, hslash]

theorem State.Within.cut {waiting : Bool} {s t : State} (h : Within waiting s t) {c : Char} {rest : List Char}
    (hcomment : (Ecma.cut s.context c rest).lexeme ≠ .htmlComment) :
    Ecma.cut t.context c rest = Ecma.cut s.context c rest := by
  have hregex : regexAfter t.previous = regexAfter s.previous := by
    rcases h.previous with heq | ⟨hnone, heq⟩
    · rw [heq]
    · rw [heq, hnone]
      rfl
  have hinner : (t.frames.head?.map Frame.enclosure == some .substitution) =
      (s.frames.head?.map Frame.enclosure == some .substitution) := by
    rw [h.innermost]
    cases s.frames <;> rfl
  rw [State.context] at hcomment ⊢
  rw [State.context, hregex, hinner]
  cases ht : t.lineStart with
  | true => rw [h.lineStart ht]
  | false =>
    cases hs : s.lineStart with
    | false => rfl
    | true =>
      rw [hs] at hcomment
      exact cut_of_lineStart hcomment

section

variable {waiting : Bool} {s t : State}

/-- A lexeme does the same within the parentheses, except that the word for a class ends the waiting. -/
theorem State.Within.take (h : Within waiting s t) {start : Nat} (start' : Nat) {piece : Cut}
    {found : List Finding} {next : State} (htake : s.take start piece.lexeme piece.rest = ⟨found, .ok next⟩) :
    ∃ found' next', t.take start' piece.lexeme piece.rest = ⟨found', .ok next'⟩ ∧
      failsModule found' = failsModule found ∧ Within (waiting && !s.startsClass piece) next next' := by
  obtain ⟨lexeme, text, rest⟩ := piece
  dsimp only at htake ⊢
  by_cases hword : ∃ word, lexeme = .word word
  · obtain ⟨word, rfl⟩ := hword
    have hstarts : s.startsClass ⟨.word word, text, rest⟩ = (word == "class" && !s.afterPoint) := by
      rw [Bool.eq_iff_iff]
      simp [startsClass]
    exact hstarts ▸ h.takeWord start' htake
  -- No other lexeme starts a class.
  have hsame : (waiting && !s.startsClass ⟨lexeme, text, rest⟩) = waiting := by
    have hother : lexeme ≠ .word "class" := fun heq => hword ⟨_, heq⟩
    simp [startsClass, hother]
  rw [hsame]
  cases lexeme with
  | lineBreak =>
    cases htake
    exact ⟨_, _, rfl, rfl, h.afterNewline⟩
  | blank | lineComment | htmlComment =>
    cases htake
    exact ⟨_, _, rfl, rfl, h⟩
  | blockComment multiline =>
    cases htake
    refine ⟨_, _, rfl, rfl, ?_⟩
    cases multiline
    · exact h
    · exact h.afterNewline
  | string parts =>
    cases htake
    exact ⟨_, _, rfl, failsModule_octalOffsets .., h.afterToken _⟩
  | regex | update =>
    cases htake
    exact ⟨_, _, rfl, rfl, h.afterToken _⟩
  | number legacy =>
    cases htake
    refine ⟨_, _, rfl, ?_, h.afterToken _⟩
    cases legacy <;> rfl
  | template stop => exact h.takeTemplate start' htake
  | templateTail stop => exact h.takeTail start' htake
  | opener d =>
    cases htake
    exact ⟨_, _, rfl, rfl, h.takeOpener _ _ d⟩
  | closer d =>
    obtain ⟨rfl, hnext⟩ := Turn.mk.inj htake
    obtain ⟨next', htake', hwithin⟩ := h.takeCloser start' hnext
    exact ⟨[], next', congrArg (Turn.mk []) htake', rfl, hwithin⟩
  | arrow =>
    cases htake
    refine ⟨_, _, rfl, rfl, ?_⟩
    split
    · exact h.afterToken _
    · exact (h.arrows _ _).afterToken _
  | word word => exact absurd ⟨word, rfl⟩ hword
  | punctuator c =>
    cases htake
    refine ⟨_, _, rfl, rfl, ?_⟩
    split
    · exact (h.arrows _ _).afterToken _
    · exact h.afterToken _
  | openComment | openString parts | openRegex => cases htake

/-- A scan without comments in the style of HTML is the same within the parentheses. -/
theorem Place.Reaches.within {p q : Place} {found : List Finding} (h : Reaches p found q) (hend : q.rest = [])
    (hcomment : ∀ x ∈ found, x.what ≠ .htmlComment) (hp : p.state.Within waiting t) (offset : Nat) :
    ∃ waiting' found' last offset', Reaches ⟨t, offset, p.rest⟩ found' ⟨last, offset', []⟩ ∧
      failsModule found' = failsModule found ∧ q.state.Within waiting' last ∧
      (waiting' = true ↔ waiting = true ∧ ∀ r, Visits p r → r.isClassKeyword = false) ∧
      (EndsInComment ⟨t, offset, p.rest⟩ ↔ p.EndsInComment) := by
  -- The state and `waiting` change from lexeme to lexeme: a word for a class ends the waiting.
  induction h generalizing t waiting offset with
  | refl p =>
    have hnone := not_endsInComment_of_nil hend
    have hnone' : ¬ EndsInComment ⟨t, offset, p.rest⟩ := not_endsInComment_of_nil hend
    have hclass : ∀ r, Visits p r → r.isClassKeyword = false := fun r hr => hr.meets_of_nil hend _
    refine ⟨waiting, [], t, offset, ?_, rfl, hp, (and_iff_left hclass).symm, iff_of_false hnone' hnone⟩
    rw [hend]
    exact .refl _
  | @step p p' q found later hstep hreaches ih =>
    have hclass : (∀ r, Visits p r → r.isClassKeyword = false) ↔
        p.isClassKeyword = false ∧ ∀ r, Visits p' r → r.isClassKeyword = false := by
      simp only [Visits.iff_of_step hstep, forall_eq_or_imp]
    have hends := hstep.endsInComment
    obtain ⟨rfl, htake⟩ := hstep
    rename_i s next first c rest
    have hcut : Ecma.cut t.context c rest = Ecma.cut s.context c rest := by
      refine hp.cut fun hlexeme => ?_
      rw [hlexeme] at htake
      cases htake
      exact hcomment _ List.mem_cons_self rfl
    obtain ⟨found', next', htake', hfound, hnext⟩ := hp.take offset htake
    have hstep' : Step ⟨t, offset, c :: rest⟩ found'
        ⟨next', offset + Text.byteSize (Ecma.cut s.context c rest).text, (Ecma.cut s.context c rest).rest⟩ :=
      .intro hcut htake'
    obtain ⟨waiting', found'', last, offset', hreaches', hfound', hlast, hwaiting, hends'⟩ :=
      ih hend (fun x hx => hcomment x (List.mem_append_right _ hx)) hnext
        (offset + Text.byteSize (Ecma.cut s.context c rest).text)
    refine ⟨waiting', found' ++ found'', last, offset', .step hstep' hreaches', ?_, hlast, ?_, ?_⟩
    · rw [failsModule_append, failsModule_append, hfound, hfound']
    · have hkeyword : isClassKeyword ⟨s, first, c :: rest⟩ = s.startsClass (Ecma.cut s.context c rest) := rfl
      rw [hwaiting, hclass, hkeyword]
      simp [and_assoc]
    · have hsame : isLastComment ⟨t, offset, c :: rest⟩ = isLastComment ⟨s, first, c :: rest⟩ := by
        simp only [isLastComment, meets, hcut]
      rw [hstep'.endsInComment, hends, hsame, hends']

end

/-! Brackets with nothing in them. -/

namespace Place

/-- A closing bracket behind what it closes. -/
theorem exists_step_close {s : State} {frame : Frame} {outer : List Frame} (hframes : s.frames = frame :: outer)
    (hframe : frame.enclosure ≠ .substitution) (offset : Nat) (rest : List Char) :
    ∃ next : State, next.frames = outer ∧ next.classDepth = s.classDepth ∧
      (frame.enclosure ≠ .controlHead → next.previous = some (.close frame.enclosure.delimiter)) ∧
      Step ⟨s, offset, frame.enclosure.delimiter.closer :: rest⟩ [] ⟨next, offset + 1, rest⟩ := by
  have hinside : s.context.inSubstitution = false := by simp [State.context, hframes, hframe]
  generalize hd : frame.enclosure.delimiter = d
  have hcut : cut s.context d.closer rest = ⟨.closer d, [d.closer], rest⟩ := cut_closer (fun _ => hinside) rest
  have hsize : Text.byteSize [d.closer] = 1 := by cases d <;> rfl
  let next : State := ({ s with frames := outer }.endArrows (outer.length + 1)).afterToken
    (if frame.enclosure = Enclosure.controlHead then .punctuator d.closer else .close d)
  have htake : s.take offset (.closer d) rest = ⟨[], .ok next⟩ := by
    rw [State.take, State.takeCloser, hframes]
    dsimp only
    rw [if_pos hd]
  rw [← hsize]
  exact ⟨next, rfl, rfl, fun hhead => congrArg some (if_neg hhead), .intro hcut htake⟩

/-- Brackets with nothing in them leave all brackets around them open. -/
theorem exists_reaches_pair (s : State) (d : Delimiter) (offset : Nat) (rest : List Char) :
    ∃ next : State, next.frames = s.frames ∧
      Reaches ⟨s, offset, d.opener :: d.closer :: rest⟩ [] ⟨next, offset + 2, rest⟩ := by
  obtain ⟨hdelimiter, houtside⟩ := s.enclosureOf_delimiter d
  have hcut : cut s.context d.opener (d.closer :: rest) = ⟨.opener d, [d.opener], d.closer :: rest⟩ := by
    cases d <;> rfl
  have hsize : Text.byteSize [d.opener] = 1 := by cases d <;> rfl
  have hopen : Step ⟨s, offset, d.opener :: d.closer :: rest⟩ []
      ⟨s.takeOpener offset d, offset + Text.byteSize [d.opener], d.closer :: rest⟩ := .intro hcut rfl
  obtain ⟨next, hnext, -, -, hclose⟩ :=
    exists_step_close (s.frames_takeOpener offset d) houtside (offset + 1) rest
  rw [hsize] at hopen
  rw [hdelimiter] at hclose
  exact ⟨next, hnext, .step hopen (.single hclose)⟩

end Place

/-- The rest of a method without parameters and statements, and the brace that closes the body around it. -/
def methodRest : List Char := ['(', ')', ' ', '\x7b', '\x7d', ' ', '\x7d']

theorem scanFrom_methodRest {s : State} {frame : Frame} (hframes : s.frames = [frame])
    (hcurly : frame.enclosure.delimiter = .curly) (hframe : frame.enclosure ≠ .substitution) (offset : Nat) :
    scanFrom s offset methodRest = ⟨[], none⟩ := by
  obtain ⟨call, hcall, hround⟩ := Place.exists_reaches_pair s .round offset [' ', '\x7b', '\x7d', ' ', '\x7d']
  obtain ⟨body, hbody, hbraces⟩ := Place.exists_reaches_pair call .curly (offset + 3) [' ', '\x7d']
  obtain ⟨last, hlast, -, -, hclose⟩ :=
    Place.exists_step_close ((hbody.trans hcall).trans hframes) hframe (offset + 6) []
  rw [hcurly] at hclose
  have hreaches := hround.trans (.step (Place.step_blank call _ _)
    (hbraces.trans (.step (Place.step_blank body _ _) (.single hclose))))
  exact hreaches.scan.trans (congrArg (Scan.after []) (Place.scan_nil hlast _))

/-- A method with nothing in it, in braces. -/
def methodBody (w : String) : List Char := ' ' :: '\x7b' :: ' ' :: (w.toList ++ methodRest)

theorem newline_not_mem_methodBody {w : String} (hw : isWord w = true) : '\n' ∉ methodBody w := by
  have hword : '\n' ∉ w.toList := fun hmem => by
    rw [isWord, Bool.and_eq_true, List.all_eq_true] at hw
    exact absurd (hw.2 _ hmem) (by decide)
  simp [methodBody, methodRest, hword]

/-- Behind a closing parenthesis, a brace opens a class body if a class waits for it there, and else a function's. -/
theorem State.enclosureOf_curly {s : State} (hprevious : s.previous = some (.close .round)) :
    s.enclosureOf .curly = if s.classDepth = some s.depth then .classBody else .functionBody := by
  have hbody : s.previous = some (.close .round) ∨ s.previous = some .arrow := .inl hprevious
  rw [enclosureOf, if_pos hbody]

/-- In a body, the name of a method fails a module if it is strict and the body is not that of a class. -/
theorem State.any_restriction?_method {s : State} {frame : Frame} {outer : List Frame}
    (hframes : s.frames = frame :: outer) (hframe : frame.enclosure ∈ [.classBody, .functionBody])
    (hprevious : s.previous = some (.punctuator '\x7b')) {w : String} (hwith : w ≠ "with") :
    (s.restriction? w methodRest).any (·.goal = .module) = false ↔
      (w ∈ strictWords → frame.enclosure = .classBody) := by
  have hnext : nextSignificant methodRest = some '(' := by decide
  have hlet : "let" ∉ strictWords := by decide
  have hbinding : s.namesBinding methodRest = (frame.enclosure != .classBody) := by
    rw [namesBinding, hnext, hframes]
    simp only [List.mem_cons, List.not_mem_nil, or_false] at hframe
    rcases hframe with heq | heq <;> simp [heq]
  rw [s.any_restriction?, if_neg hwith, hprevious, hbinding]
  by_cases hw : w = "let"
  · simp [hw, hlet]
  · simp [hw]

/-- Behind a closing parenthesis, the method fails a module if its name is strict and no class waits for its body. -/
theorem scanFrom_methodBody {s : State} (hframes : s.frames = []) (hprevious : s.previous = some (.close .round))
    {w : String} (hw : isWord w = true) (hwith : w ≠ "with") (offset : Nat) :
    (scanFrom s offset (methodBody w)).fault = none ∧
      (failsModule (scanFrom s offset (methodBody w)).findings = false ↔
        (w ∈ strictWords → s.classDepth = some 0)) := by
  let body : State := s.takeOpener (offset + 1) .curly
  have hbrace : Place.Step ⟨s, offset + 1, '\x7b' :: ' ' :: (w.toList ++ methodRest)⟩ []
      ⟨body, offset + 2, ' ' :: (w.toList ++ methodRest)⟩ := .intro rfl rfl
  have hstop : ∀ c ∈ methodRest.head?, isWordPart c = false := by
    rintro c ⟨⟩
    decide
  have hbody : body.frames = [⟨s.enclosureOf .curly, offset + 1⟩] := by
    rw [State.frames_takeOpener, hframes]
  obtain ⟨hcurly, houtside⟩ := s.enclosureOf_delimiter .curly
  let found : List Finding := (body.restriction? w methodRest).toList.map (⟨offset + 3, ·⟩)
  have hword : Place.Step ⟨body, offset + 3, w.toList ++ methodRest⟩ found
      ⟨body.afterWord w, offset + 3 + Text.byteSize w.toList, methodRest⟩ :=
    Place.step_of_isWord hw hstop body _
  have hreaches := Place.Reaches.step (Place.step_blank s offset _)
    (.step hbrace (.step (Place.step_blank body _ _) (.single hword)))
  have hrest := scanFrom_methodRest ((body.afterWord_frames w).trans hbody) hcurly houtside
    (offset + 3 + Text.byteSize w.toList)
  have hscan : scanFrom s offset (methodBody w) = ⟨found, none⟩ :=
    hreaches.scan.trans ((congrArg (Scan.after found) hrest).trans (congrArg (Scan.mk · none) (List.append_nil _)))
  have henclosure := State.enclosureOf_curly hprevious
  have heither : s.enclosureOf .curly ∈ [Enclosure.classBody, .functionBody] := by
    rw [henclosure]
    split <;> decide
  have hmethod := State.any_restriction?_method hbody heither rfl hwith
  rw [hscan]
  refine ⟨rfl, ?_⟩
  rw [failsModule_toList, hmethod, henclosure, State.depth, hframes]
  simp

/-! A heritage, and what stands around it. -/

/-- The parentheses of a heritage, behind the word for its class. -/
def State.inHeritage : State where
  frames := [⟨.group, 16⟩]
  previous := some (.punctuator '(')
  lineStart := false
  classDepth := some 0

/-- Parentheses at the start of a text. -/
def State.inParentheses : State := State.takeOpener {} 0 .round

theorem Place.reaches_inHeritage (more : List Char) :
    Reaches (start ("class A extends (".toList ++ more)) [] ⟨State.inHeritage, 17, more⟩ := by
  let keyword : State := { previous := some (.word "class"), lineStart := false, classDepth := some 0 }
  let clause : State := keyword.afterToken (.word "extends")
  have htext : "class A extends (".toList ++ more =
      "class".toList ++ ' ' :: ("A".toList ++ ' ' :: ("extends".toList ++ ' ' :: '(' :: more)) := by simp
  have hstop (rest : List Char) : ∀ c ∈ (' ' :: rest).head?, isWordPart c = false := by
    rintro c ⟨⟩
    decide
  have hclass (rest : List Char) : Step ⟨{}, 0, "class".toList ++ ' ' :: rest⟩ [] ⟨keyword, 5, ' ' :: rest⟩ := by
    have hfree : State.restriction? {} "class" (' ' :: rest) = none := by simp [State.restriction?, strictWords]
    have hstep := step_of_isWord (w := "class") (by decide) (hstop rest) {} 0
    rwa [hfree, ite_self] at hstep
  have hname (rest : List Char) : Step ⟨keyword, 6, "A".toList ++ ' ' :: rest⟩ [] ⟨_, 7, ' ' :: rest⟩ :=
    step_unmarked 6 (by decide) (by decide) (hstop rest) keyword
  have hextends (rest : List Char) : Step ⟨keyword.afterToken (.word "A"), 8, "extends".toList ++ ' ' :: rest⟩ []
      ⟨clause, 15, ' ' :: rest⟩ := step_unmarked 8 (by decide) (by decide) (hstop rest) _
  rw [htext]
  exact .step (hclass _) (.step (step_blank ..) (.step (hname _) (.step (step_blank ..) (.step (hextends _)
    (.step (step_blank ..) (.single (.intro rfl rfl)))))))

theorem Place.reaches_inParentheses (more : List Char) :
    Reaches (start ('(' :: more)) [] ⟨State.inParentheses, 1, more⟩ := .single (.intro rfl rfl)

theorem State.within_inHeritage : Within true {} inHeritage where
  frames := rfl
  previous := .inr ⟨rfl, rfl⟩
  lineStart := nofun
  controlNext := rfl
  classDepth := rfl
  fresh _ := rfl

theorem State.within_inParentheses : Within false {} inParentheses where
  frames := rfl
  previous := .inr ⟨rfl, rfl⟩
  lineStart := nofun
  controlNext := rfl
  classDepth := rfl
  fresh := nofun

theorem tail_close {more : List Char} (hline : '\n' ∉ more) : Tail (')' :: more) :=
  .of_visible (by decide) (by decide) (by decide) (by decide) (operandFollows_visible (by decide) (by decide) more)
    (by simp [hline])

section

variable {h : List Char} (hplain : ¬ ['#', '!'] <+: h) (hclosed : (scan h).fault = none)
  (hcomment : ∀ x ∈ (scan h).findings, x.what ≠ .htmlComment)

include hplain hclosed hcomment

/--
A text within parentheses fails a module if it does alone, and comes to their end, unless a comment takes it. The
class in front of them waits for its body then if it did before and no other class comes within.
-/
theorem exists_reaches_within {waiting : Bool} {t : State} (ht : State.Within waiting {} t) (offset : Nat)
    {tail : List Char} (htail : Tail tail) :
    ∃ found frame offset', ∃ last : State, last.frames = [frame] ∧ frame.enclosure = .group ∧
      (last.classDepth = some 0 ↔
        waiting = true ∧ ∀ p, Place.Visits (.start h) p → p.isClassKeyword = false) ∧
      failsModule found = failsModule (scan h).findings ∧
      (¬ (Place.start h).EndsInComment →
        Place.Reaches ⟨t, offset, h ++ tail⟩ found ⟨last, offset', tail⟩) ∧
      ((Place.start h).EndsInComment →
        ∃ offset'', Place.Reaches ⟨t, offset, h ++ tail⟩ found ⟨last, offset'', []⟩) := by
  obtain ⟨last, hreaches, hframes⟩ := (Place.start h).exists_reaches_end hclosed
  have hstart := Place.start_of_plain hplain
  rw [Place.scan_start] at hreaches
  rw [hstart] at hreaches ⊢
  obtain ⟨waiting', found, last', offset', hwithin, hfound, hlast, hwaiting, hends⟩ :=
    hreaches.within rfl hcomment ht offset
  obtain ⟨-, hgoes, hstops⟩ := hwithin.append rfl htail
  have hgroup := hlast.frames
  rw [hframes, List.map_nil, List.nil_append] at hgroup
  obtain ⟨frame, hframe, henclosure⟩ := List.map_eq_singleton_iff.1 hgroup
  have hclass : last'.classDepth = some 0 ↔ waiting' = true := by
    rw [hlast.classDepth]
    cases waiting' <;> simp
  rw [hends] at hgoes hstops
  exact ⟨found, frame, offset', last', hframe, henclosure, hclass.trans hwaiting, hfound, hgoes, hstops⟩

/-- Parentheses that a module accepts around the text show that it closes them and fails no module. -/
theorem heritage_of_accepted (hparens : judge ('(' :: (h ++ [')'])) .module = .ok ()) :
    ¬ (Place.start h).EndsInComment ∧ failsModule (scan h).findings = false := by
  obtain ⟨found, frame, offset', last, hframes, -, -, hfound, hgoes, hstops⟩ :=
    exists_reaches_within hplain hclosed hcomment State.within_inParentheses 1 (tail_close List.not_mem_nil)
  have hopen := Place.reaches_inParentheses (h ++ [')'])
  obtain ⟨hfault, hfindings⟩ := judge_module_iff.1 hparens
  have hends : ¬ (Place.start h).EndsInComment := fun hends => by
    obtain ⟨offset'', hreaches⟩ := hstops hends
    have hscan := (hopen.trans hreaches).scan
    rw [Place.scan_start] at hscan
    rw [hscan, Place.scan, scanFrom, State.unclosed?, hframes] at hfault
    cases hfault
  have hscan := (hopen.trans (hgoes hends)).scan
  rw [Place.scan_start] at hscan
  rw [hscan, Scan.findings_after, failsModule_append, Bool.or_eq_false_iff, List.nil_append, hfound] at hfindings
  exact ⟨hends, hfindings.1⟩

/-- Behind such a heritage, the class still waits for its body if no other class comes within. -/
theorem judge_module_classOver (hends : ¬ (Place.start h).EndsInComment)
    (hfindings : failsModule (scan h).findings = false) {w : String} (hw : isWord w = true) (hwith : w ≠ "with") :
    judge ("class A extends (".toList ++ (h ++ ')' :: methodBody w)) .module = .ok () ↔
      (w ∈ strictWords → ∀ p, Place.Visits (.start h) p → p.isClassKeyword = false) := by
  obtain ⟨found, frame, offset, last, hframes, hgroup, hclass, hfound, hgoes, -⟩ :=
    exists_reaches_within hplain hclosed hcomment State.within_inHeritage 17
      (tail_close (newline_not_mem_methodBody hw))
  have hwaits : last.classDepth = some 0 ↔ ∀ p, Place.Visits (.start h) p → p.isClassKeyword = false :=
    hclass.trans (and_iff_right rfl)
  obtain ⟨next, hnext, hdepth, hprevious, hclose⟩ :=
    Place.exists_step_close hframes (by rw [hgroup]; decide) offset (methodBody w)
  rw [hgroup] at hprevious hclose
  have hreaches := (Place.reaches_inHeritage _).trans ((hgoes hends).trans (.single hclose))
  have hscan := hreaches.scan
  obtain ⟨hfault, hmethod⟩ := scanFrom_methodBody hnext (hprevious (by decide)) hw hwith (offset + 1)
  rw [Place.scan_start, Place.scan] at hscan
  rw [judge_module_iff, hscan, Scan.fault_after, Scan.findings_after, and_iff_right hfault, failsModule_append,
    List.append_nil, List.nil_append, hfound, hfindings, Bool.false_or, hmethod, hdepth, hwaits]

end

/--
A class whose heritage stands in parentheses, has no faults by itself and passes as a module within them: a module
accepts any name for its method, but a strict one only if the heritage has no class in it.
-/
theorem attempt_heritage_iff {h : List Char} (hplain : ¬ Utf8.ofString "#!" <+: Utf8.encode h)
    (hclosed : (scan h).fault = none) (hcomment : ∀ x ∈ (scan h).findings, x.what ≠ .htmlComment)
    (hparens : probe.attempt (Utf8.ofString "(" ++ Utf8.encode h ++ Utf8.ofString ")") .module = .ok ())
    {w : String} (hw : isWord w = true) (hwith : w ≠ "with") :
    probe.attempt (Utf8.ofString "class A extends (" ++ Utf8.encode h ++ Utf8.ofString ") \x7b " ++
        Utf8.ofString w ++ Utf8.ofString "() \x7b\x7d \x7d") .module = .ok () ↔
      (w ∈ strictWords → ∀ p, Place.Visits (.start h) p → p.isClassKeyword = false) := by
  have hplain' : ¬ ['#', '!'] <+: h := fun h => hplain (Utf8.prefix_encode h)
  have hgroup : Utf8.ofString "(" ++ Utf8.encode h ++ Utf8.ofString ")" = Utf8.encode ('(' :: (h ++ [')'])) := by
    rw [Utf8.ofString, Utf8.ofString, ← Utf8.encode_append, ← Utf8.encode_append]
    simp
  have hclass : Utf8.ofString "class A extends (" ++ Utf8.encode h ++ Utf8.ofString ") \x7b " ++ Utf8.ofString w ++
      Utf8.ofString "() \x7b\x7d \x7d" =
        Utf8.encode ("class A extends (".toList ++ (h ++ ')' :: methodBody w)) := by
    simp only [Utf8.ofString, ← Utf8.encode_append]
    simp [methodBody, methodRest]
  rw [hgroup, probe_encode] at hparens
  obtain ⟨hends, hfindings⟩ := heritage_of_accepted hplain' hclosed hcomment hparens
  rw [hclass, probe_encode]
  exact judge_module_classOver hplain' hclosed hcomment hends hfindings hw hwith

/-- A name as the heritage leaves the class its body. -/
theorem attempt_heritage_iff_of_name :
    probe.attempt (Utf8.ofString "class A extends (" ++ Utf8.ofString "B" ++ Utf8.ofString ") \x7b " ++
      Utf8.ofString "private" ++ Utf8.ofString "() \x7b\x7d \x7d") .module = .ok () := by
  have hname : Place.Step (Place.start "B".toList) [] ⟨State.afterWord {} "B", 1, []⟩ := .intro rfl rfl
  have hscan : scan "B".toList = ⟨[], none⟩ :=
    (Place.Reaches.single hname).scan.trans (congrArg (Scan.after []) (Place.scan_nil rfl _))
  have hcomment : ∀ x ∈ (scan "B".toList).findings, x.what ≠ .htmlComment := by
    rw [hscan]
    exact fun x hx => absurd hx List.not_mem_nil
  let last : State := { previous := some (.close .round), lineStart := false }
  have hend : Place.Reaches (Place.start "(B)".toList) [] ⟨last, 3, []⟩ := by
    have htext : "(B)".toList = ['(', 'B', ')'] := by simp
    rw [htext]
    exact .quiet rfl rfl (.quiet rfl rfl (.quiet rfl rfl (.refl _)))
  have hgroup : scan "(B)".toList = ⟨[], none⟩ :=
    hend.scan.trans (congrArg (Scan.after []) (Place.scan_nil rfl _))
  have hparens : probe.attempt (Utf8.encode "(B)".toList) .module = .ok () := by
    rw [probe_encode, judge, hgroup]
    rfl
  have hclass : ∀ p, Place.Visits (.start "B".toList) p → p.isClassKeyword = false := fun p hp => by
    rcases (Place.Visits.iff_of_step hname).1 hp with rfl | hp
    · rfl
    · exact hp.meets_of_nil rfl _
  exact (attempt_heritage_iff (w := "private") (by decide) (congrArg Scan.fault hscan) hcomment hparens (by decide)
    (by decide)).2 fun _ => hclass

/-- A class as the heritage takes the body: a brace that opens a function's is what the scan sees there. -/
theorem attempt_heritage_of_class :
    (scan "class \x7b\x7d".toList).fault = none ∧
      probe.attempt (Utf8.ofString "(class \x7b\x7d)") .module = .ok () ∧
      probe.attempt (Utf8.ofString "class A extends (class \x7b\x7d) \x7b private() \x7b\x7d \x7d") .module =
        .error ⟨⟨1, 30, 29⟩, "'private' is a reserved word in module code"⟩ := by
  have hgroup : (scan "(class \x7b\x7d)".toList).violation? .module = none := by decide +kernel
  have hwhole : (scan "class A extends (class \x7b\x7d) \x7b private() \x7b\x7d \x7d".toList).violation? .module =
      some ⟨29, .restriction (.reservedWord "private")⟩ := by
    decide +kernel
  refine ⟨by decide +kernel, ?_, ?_⟩
  · rw [Utf8.ofString, probe_encode, judge, hgroup]
  · rw [Utf8.ofString, probe_encode, judge, hwhole]
    rfl

end ParseGoal.Ecma
