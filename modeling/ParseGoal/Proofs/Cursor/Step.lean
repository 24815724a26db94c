import ParseGoal.Proofs.Cursor.Lookahead
import ParseGoal.Proofs.Ecma.Bounds
import ParseGoal.Proofs.Ecma.Brackets

/-!
One step over the bytes does what the lexeme there does: it moves past the lexeme's bytes, or it ends
at the lexeme's fault. In particular, nothing that the step indexes or slices is out of range.
-/
namespace ParseGoal.Ecma.Cursor

variable {b : Bytes} {m : Cursor} {c : Char} {text rest : List Char} {pos : Nat}

/-- A cursor that has come from another, running into some findings on its way. -/
structure Runs (m : Cursor) (found : List Finding) (last : Cursor) : Prop where
  errorOf : ∀ goal, last.errorOf goal = (m.recordAll found).errorOf goal
  le_pos : m.pos ≤ last.pos
  lt_pos : ∀ x ∈ found, x.offset < last.pos

theorem Runs.nil {m last : Cursor} (herror : ∀ goal, last.errorOf goal = m.errorOf goal)
    (hle : m.pos ≤ last.pos) : Runs m [] last := ⟨herror, hle, List.forall_mem_nil _⟩

theorem Runs.refl (m : Cursor) : Runs m [] m := .nil (fun _ => rfl) (Nat.le_refl _)

/-- A step ends as a lexeme of `size` bytes does. -/
def Follows (m : Cursor) (size : Nat) (turn : Turn) (outcome : Option Outcome) : Prop :=
  match turn.next with
  | .ok s =>
    outcome = some (.ok { m.recordAll turn.findings with pos := m.pos + size, state := s })
  | .error fault => ∃ last : Cursor, outcome = some (.error (last, fault)) ∧ Runs m turn.findings last

/-- A step does what the lexeme of a cut does. -/
def Takes (m : Cursor) (piece : Cut) (outcome : Option Outcome) : Prop :=
  Follows m (Text.byteSize piece.text) (m.state.take m.pos piece.lexeme piece.rest) outcome

theorem record_state (m : Cursor) (x : Finding) : (m.record x).state = m.state := by
  unfold record
  split <;> rfl

theorem recordAll_state (m : Cursor) (found : List Finding) :
    (m.recordAll found).state = m.state := by
  induction found generalizing m with
  | nil => rfl
  | cons x found ih => rw [recordAll_cons, ih, record_state]

/-! Comments. -/

theorem takes_blockComment (h : Reads b m.pos ('/' :: '*' :: rest)) :
    Takes m
      (match commentBody rest with
      | some (body, after) => ⟨.blockComment (body.contains '\n'), '/' :: '*' :: body, after⟩
      | none => ⟨.openComment, '/' :: '*' :: rest, []⟩)
      (m.blockComment b m.pos) := by
  rw [blockComment, slice_comment (by decide) (by decide) h]
  simp only [Option.bind_eq_bind, Option.bind_some, closeAt?_encode]
  cases hbody : commentBody rest with
  | none => exact ⟨m, rfl, .refl m⟩
  | some found =>
    obtain ⟨body, after⟩ := found
    have hrest := (h.next (by decide)).next (by decide)
    obtain ⟨inside, -, hslice, hlines⟩ := contains_inside hrest hbody
    obtain ⟨inner, hinner⟩ := commentBody_eq_append hbody
    have hsize : m.pos + 2 + (Text.byteSize body - 2) + 2 =
        m.pos + Text.byteSize ('/' :: '*' :: body) := by
      have hslash : Text.byteSize ('/' :: '*' :: body) = 1 + (1 + Text.byteSize body) := rfl
      have htwo : Text.byteSize ['*', '/'] = 2 := rfl
      rw [hslash, hinner, Text.byteSize_append]
      omega
    simp only [Option.map_some, hslice, Option.bind_some, hlines, hsize]
    cases hmultiline : body.contains '\n' <;> rfl

theorem takes_htmlComment (h : Reads b m.pos (c :: rest)) (hc : c ≠ '\n') :
    Takes m ⟨.htmlComment, c :: lineText rest, afterLine rest⟩ (m.htmlComment b m.pos) := by
  have hline : lineText (c :: rest) = c :: lineText rest := List.takeWhile_cons_of_pos (bne_iff_ne.2 hc)
  rw [htmlComment, skipLine_eq h, hline]
  rfl

theorem takes_slash (h : Reads b m.pos ('/' :: rest)) :
    Takes m (cutSlash m.state.context rest)
      (if rest.head? = some '/' then (b.skipLine m.pos).bind fun stop => some (.ok (m.seek stop))
      else if rest.head? = some '*' then m.blockComment b m.pos
      else if regexAfter m.state.previous then m.regex b m.pos
      else some (.ok ((m.seek (if rest.head? = some '=' then m.pos + 2 else m.pos + 1)).token
        (.punctuator '/')))) := by
  rw [cutSlash]
  by_cases hline : rest.head? = some '/'
  · have htext : lineText ('/' :: rest) = '/' :: lineText rest := rfl
    rw [if_pos hline, if_pos hline, skipLine_eq h, htext]
    rfl
  rw [if_neg hline, if_neg hline]
  by_cases hblock : rest.head? = some '*'
  · obtain ⟨rest, rfl⟩ := List.head?_eq_some_iff.1 hblock
    rw [if_pos hblock, if_pos hblock]
    exact takes_blockComment h
  rw [if_neg hblock, if_neg hblock]
  by_cases hregex : m.state.context.regexAllowed = true
  · have hregex' : regexAfter m.state.previous = true := hregex
    have hends : RegexEnds (m.pos + 1) (b.regexEnd false (m.pos + 1)) (regexBody false rest) :=
      regexEnd_ends (h.next (by decide))
    rw [if_pos hregex, if_pos hregex', regex]
    cases hbody : regexBody false rest with
    | none =>
      rw [hbody] at hends
      obtain ⟨stop, hle, hstop⟩ := hends
      rw [hstop]
      exact ⟨m.seek stop, rfl, .nil (fun _ => rfl) (Nat.le_of_add_right_le hle)⟩
    | some found =>
      obtain ⟨body, after⟩ := found
      rw [hbody] at hends
      have hflags := Reads.append (regexBody_append hbody ▸ h.next (by decide))
      have hsize : m.pos + 1 + Text.byteSize body + Text.byteSize (after.takeWhile isIdentifierPart) =
          m.pos + Text.byteSize ('/' :: (body ++ after.takeWhile isIdentifierPart)) := by
        rw [Text.byteSize_cons, Text.byteSize_append]
        have hslash : '/'.utf8Size = 1 := rfl
        omega
      rw [hends]
      simp only [Option.bind_eq_bind, Option.bind_some, flagsEnd_eq hflags, hsize]
      rfl
  · have hregex' : ¬ regexAfter m.state.previous = true := hregex
    rw [if_neg hregex, if_neg hregex']
    by_cases hassign : rest.head? = some '='
    · rw [if_pos hassign, if_pos hassign]
      rfl
    · rw [if_neg hassign, if_neg hassign]
      rfl

/-! Literals. -/

theorem takes_string (hc : c = '\'' ∨ c = '"') (h : Reads b m.pos (c :: rest)) :
    Takes m (cutString c rest)
      ((string b (byte c) m.pos (m.seek (m.pos + 1))).bind fun
        | .ok m => some (.ok (m.token .literal))
        | .error fault => some (.error fault)) := by
  have hascii : c.toNat < 0x80 := by rcases hc with rfl | rfl <;> decide
  have hends : StringEnds m.pos (m.pos + 1) m _ _ := string_eq hc (h.next hascii)
  have hone : c.utf8Size = 1 := utf8Size_ascii hascii
  rw [cutString]
  generalize stringParts c rest = found at hends
  obtain ⟨parts, _ | after⟩ := found
  · obtain ⟨stop, hle, hstring⟩ := hends
    rw [hstring]
    have hpast (x : Finding) (hx : x ∈ octals (m.pos + 1) parts) : x.offset < stop := by
      obtain ⟨n, hn, rfl⟩ := List.mem_map.1 hx
      exact Nat.lt_of_lt_of_le (starts_octalOffsets hn).lt hle
    exact ⟨_, rfl, fun goal => by cases goal <;> rfl, by dsimp only [seek]; omega, hpast⟩
  · have hsize : m.pos + 1 + Text.byteSize (stringText parts) + 1 =
        m.pos + Text.byteSize (c :: (stringText parts ++ [c])) := by
      rw [Text.byteSize_cons, Text.byteSize_append, Text.byteSize_cons, hone, Text.byteSize_nil]
      omega
    rw [StringEnds, hsize] at hends
    rw [hends]
    simp only [Option.bind_some, token, seek, recordAll_state]
    rfl

theorem takes_template {m' : Cursor} {start : Nat} {s : State} (lexeme : Option TemplateStop → Lexeme)
    (hc : c.toNat < 0x80) (h : Reads b m.pos (c :: rest))
    (hm : m' = { m with pos := m.pos + 1, state := s })
    (htake : ∀ stop after, m.state.take m.pos (lexeme stop) after = s.takeTemplate start stop) :
    Takes m (cutTemplate lexeme c rest) (template b start m') := by
  subst hm
  have hends : TemplateEnds start (m.pos + 1) { m with state := s } _ _ := template_eq (h.next hc)
  rw [cutTemplate]
  cases hbody : templateBody rest with
  | none =>
    rw [hbody] at hends
    obtain ⟨stop, hle, htemplate⟩ := hends
    rw [Takes, htake]
    exact ⟨_, htemplate, .nil (fun goal => by cases goal <;> rfl) (Nat.le_of_add_right_le hle)⟩
  | some found =>
    obtain ⟨stop, body, after⟩ := found
    have hsize : m.pos + 1 + Text.byteSize body = m.pos + Text.byteSize (c :: body) := by
      rw [Text.byteSize_cons, utf8Size_ascii hc, Nat.add_assoc]
    rw [hbody, TemplateEnds, hsize] at hends
    rw [Takes, htake]
    exact hends

theorem takes_number (hc : c.toNat < 0x80) (h : Reads b m.pos (c :: rest)) :
    Takes m (cutNumber c rest) (m.number b m.pos) := by
  have hfirst : b[m.pos]? = some (byte c) := h.get.trans (firstByte_ascii hc rest)
  have hbefore : before? b (m.pos + 1) = some (byte c) := hfirst
  have hnext := (h.next hc).get
  have hzero : byte c = byte '0' ↔ c = '0' := byte_inj hc (by decide)
  have hlegacy : b[m.pos + 1]?.any isDigit = (rest.head?.map Char.isDigit).getD false := by
    rw [h.any_next hc isDigit_isClass]
    cases rest <;> rfl
  have hhexadecimal : (b[m.pos + 1]?.any fun x => x == byte 'x' || x == byte 'X') = true ↔
      rest.head? = some 'x' ∨ rest.head? = some 'X' := by
    rw [← h.getElem?_next hc (d := 'x') (by decide), ← h.getElem?_next hc (d := 'X') (by decide)]
    cases b[m.pos + 1]? <;> simp
  rw [number, hfirst, cutNumber]
  simp only [Option.bind_eq_bind, Option.bind_some, hzero, hlegacy, hhexadecimal,
    numberEnd_eq hc hbefore (h.next hc), Nat.add_assoc m.pos]
  generalize numberTail _ c rest = found
  obtain ⟨tail, after⟩ := found
  have hsize : 1 + Text.byteSize tail = Text.byteSize (c :: tail) := by
    rw [Text.byteSize_cons, utf8Size_ascii hc]
  simp only [hsize]
  by_cases h : c = '0' ∧ (rest.head?.map Char.isDigit).getD false = true
  · rw [if_pos h, record_seek]
    simp only [h, and_self, decide_true]
    simp only [token, seek, record_state]
    rfl
  · rw [if_neg h]
    simp only [h, decide_false]
    rfl

/-! Brackets. -/

theorem takes_opener {d : Delimiter} (h : Reads b m.pos (d.opener :: rest)) :
    Takes m ⟨.opener d, [d.opener], rest⟩ (m.opens b d m.pos) := by
  have hc : d.opener.toNat < 0x80 := by cases d <;> decide
  have hfirst : b[m.pos]? = some (byte d.opener) := h.get.trans (firstByte_ascii hc rest)
  have hsize : Text.byteSize [d.opener] = 1 := by cases d <;> rfl
  rw [opens, hfirst]
  simp only [Option.bind_eq_bind, Option.bind_some, ofNat_byte hc]
  rw [Takes, hsize]
  rfl

theorem takes_closer {d : Delimiter} (h : Reads b m.pos (d.closer :: rest))
    (hd : ¬ (d = .curly ∧ m.state.context.inSubstitution = true)) :
    Takes m ⟨.closer d, [d.closer], rest⟩ (m.closes b d m.pos) := by
  have hsize : Text.byteSize [d.closer] = 1 := by cases d <;> rfl
  rw [closes, Takes, hsize, State.take, State.takeCloser]
  cases hframes : m.state.frames with
  | nil => exact ⟨m, rfl, .refl m⟩
  | cons frame outer =>
    have hsubstitution : ¬ (frame.enclosure = .substitution ∧ d = .curly) := by
      rintro ⟨hframe, rfl⟩
      exact hd ⟨rfl, by simp [State.context, hframes, hframe]⟩
    dsimp only
    rw [if_neg hsubstitution]
    by_cases hmatch : frame.enclosure.delimiter = d
    · rw [if_pos hmatch, if_pos hmatch]
      rfl
    · rw [if_neg hmatch, if_neg hmatch]
      exact ⟨_, rfl, .nil (fun goal => by cases goal <;> rfl) (Nat.le_refl _)⟩

theorem takes_templateTail (h : Reads b m.pos ('}' :: rest))
    (hsubstitution : m.state.context.inSubstitution = true) :
    Takes m (cutTemplate .templateTail '}' rest) (m.closes b .curly m.pos) := by
  simp only [State.context, beq_iff_eq, Option.map_eq_some_iff] at hsubstitution
  obtain ⟨frame, hhead, hframe⟩ := hsubstitution
  obtain ⟨outer, hframes⟩ := List.head?_eq_some_iff.1 hhead
  rw [closes, hframes]
  dsimp only
  rw [if_pos ⟨hframe, rfl⟩]
  refine takes_template .templateTail (by decide) h rfl fun stop after => ?_
  rw [State.take, State.takeTail, hframes]
  rfl

/-! Words. -/

/-- What stands next, asked for as a byte. -/
theorem nextSignificant_byte {d : Char} (hd : d.toNat < 0x80) (text : List Char) :
    ((Ecma.nextSignificant text).bind fun c => firstByte [c]) = some (byte d) ↔
      Ecma.nextSignificant text = some d := by
  cases Ecma.nextSignificant text with
  | none => simp
  | some c => rw [Option.bind_some, firstByte_eq hd, List.head?_cons]

theorem namesBinding_eq (h : Reads b m.pos rest) :
    m.namesBinding b = some (m.state.namesBinding rest) := by
  have hcolon := nextSignificant_byte (d := ':') (by decide) rest
  have hround : (((Ecma.nextSignificant rest).bind fun c => firstByte [c]) != some (byte '(')) =
      (Ecma.nextSignificant rest != some '(') := by
    rw [Bool.eq_iff_iff, bne_iff_ne, bne_iff_ne, Ne, nextSignificant_byte (by decide)]
  rw [namesBinding, nextSignificant_eq h, State.namesBinding]
  simp only [Option.bind_eq_bind, Option.bind_some, hcolon, hround]
  by_cases hkey : Ecma.nextSignificant rest = some ':'
  · rw [if_pos hkey, if_pos hkey]
  · rw [if_neg hkey, if_neg hkey]
    rcases m.state.frames.head?.map Frame.enclosure with _ | enclosure
    · rfl
    · cases enclosure <;> rfl

theorem keyword_eq (word : String) (h : Reads b m.pos rest) :
    m.keyword b word = some (m.state.restriction? word rest) := by
  have hround := nextSignificant_byte (d := '(') (by decide) rest
  have hpoint := nextSignificant_byte (d := '.') (by decide) rest
  rw [keyword, State.restriction?, nextSignificant_eq h, operandFollows_eq h, namesBinding_eq h]
  simp only [Option.bind_eq_bind, Option.bind_some, hround, hpoint]
  split_ifs <;> simp_all

/-- Past a word, with what it runs into. -/
theorem takes_found {text after : List Char} {word : String} {found : Option Restriction}
    (hfound : (if m.state.afterPoint then none else m.state.restriction? word after) = found) :
    Takes m ⟨.word word, text, after⟩
      (let noted := found.elim (m.seek (m.pos + Text.byteSize text)) fun r =>
        (m.seek (m.pos + Text.byteSize text)).record ⟨m.pos, r⟩
      some (.ok { noted with state := noted.state.afterWord word })) := by
  rw [Takes, State.take, hfound]
  cases found with
  | none => rfl
  | some r =>
    simp only [Option.elim_some, record_seek]
    simp only [seek, record_state]
    rfl

theorem takes_word (hc : isWordPart c = true) (h : Reads b m.pos (c :: rest)) :
    Takes m (cutRun (.word ∘ String.ofList) c isWordPart rest) (m.word b m.pos) := by
  have hword : (c :: rest).takeWhile isWordPart = c :: rest.takeWhile isWordPart :=
    List.takeWhile_cons_of_pos hc
  have hsplit : (c :: rest.takeWhile isWordPart) ++ rest.dropWhile isWordPart = c :: rest := by
    rw [List.cons_append, List.takeWhile_append_dropWhile]
  have hreads : Reads b m.pos ((c :: rest.takeWhile isWordPart) ++ rest.dropWhile isWordPart) :=
    hsplit.symm ▸ h
  rw [word, wordEnd_eq h, hword, cutRun]
  generalize c :: rest.takeWhile isWordPart = text at hreads
  have hkeyword := keyword_eq (m := m.seek (m.pos + Text.byteSize text)) (String.ofList text) hreads.append
  simp only [Option.bind_eq_bind, Option.bind_some, hreads.textSlice?, hkeyword]
  by_cases hpoint : m.state.afterPoint = true
  · have hpoint' : (m.seek (m.pos + Text.byteSize text)).state.afterPoint = true := hpoint
    rw [if_pos hpoint']
    exact takes_found (if_pos hpoint)
  · have hpoint' : ¬ (m.seek (m.pos + Text.byteSize text)).state.afterPoint = true := hpoint
    rw [if_neg hpoint']
    exact takes_found (if_neg hpoint)

theorem takes_wide (hc : 0x80 ≤ c.toNat) (h : Reads b m.pos (c :: rest)) :
    Takes m (cutWide c rest) (m.wide b m.pos) := by
  rw [wide, h.charAt?, cutWide]
  dsimp only
  by_cases hline : c = '\u2028' ∨ c = '\u2029'
  · rw [if_pos hline, if_pos hline]
    rfl
  rw [if_neg hline, if_neg hline]
  by_cases hblank : Text.isBlank c = true ∨ c = '\ufeff'
  · rw [if_pos hblank, if_pos hblank]
    rfl
  rw [if_neg hblank, if_neg hblank]
  by_cases hletter : Text.isAlphabetic c = true
  · rw [if_pos hletter, if_pos hletter]
    refine takes_word ?_ h
    rw [isWordPart, if_neg (Nat.not_lt.2 hc), Text.isAlphanumeric_of_isAlphabetic hletter]
  · have hmark : ¬ (c = ',' ∨ c = ';') := by
      rintro (rfl | rfl) <;> exact absurd hc (by decide)
    rw [if_neg hletter, if_neg hletter, Takes, State.take, if_neg hmark]
    rfl

/-! Any lexeme. -/

theorem startsAt_eq (h : Reads b pos text) (p : List Char) :
    startsAt b pos (Utf8.encode p) = some (p.isPrefixOf text) := by
  rw [startsAt, h.slice?_tail]
  simp only [Option.bind_eq_bind, Option.bind_some, Option.some_inj]
  rw [Bool.eq_iff_iff, List.isPrefixOf_iff_prefix, List.isPrefixOf_iff_prefix, Utf8.prefix_encode_iff]

theorem startsHtml_eq {x : UInt8} (hbyte : IsByteOf x c) (h : Reads b m.pos (c :: rest)) :
    ∃ html : Bool, m.startsHtml b x m.pos = some html ∧
      (html = true ↔ c = '<' ∧ ['!', '-', '-'].isPrefixOf rest ∨
        c = '-' ∧ m.state.context.lineStart ∧ ['-', '>'].isPrefixOf rest) := by
  have hangle : x = byte '<' ↔ c = '<' := hbyte.eq_byte (by decide)
  have hminus : x = byte '-' ↔ c = '-' := hbyte.eq_byte (by decide)
  have hopen := startsAt_eq h "<!--".toList
  have hclose := startsAt_eq h "-->".toList
  simp only [startsHtml, hangle, hminus, Utf8.ofString, hopen, hclose]
  by_cases h : c = '<'
  · subst h
    exact ⟨_, if_pos rfl, by simp⟩
  rw [if_neg h]
  by_cases hstart : c = '-' ∧ m.state.lineStart = true
  · obtain ⟨rfl, hstart⟩ := hstart
    exact ⟨_, if_pos ⟨rfl, hstart⟩, by simp [State.context, hstart]⟩
  · refine ⟨false, if_neg hstart, ?_⟩
    simp only [Bool.false_eq_true, h, false_and, false_or, false_iff]
    exact fun hc => hstart ⟨hc.1, hc.2.1⟩

/-- The lexeme at a number, a word or a sign. -/
def cutOther (c : Char) (rest : List Char) : Cut :=
  if c.isDigit then cutNumber c rest
  else if c = '.' ∧ (rest.head?.map Char.isDigit).getD false then cutNumber c rest
  else if (c = '+' ∨ c = '-') ∧ rest.head? = some c then ⟨.update, [c, c], rest.tail⟩
  else if c = '=' ∧ rest.head? = some '>' then ⟨.arrow, ['=', '>'], rest.tail⟩
  else if isIdentifierStart c then cutRun (.word ∘ String.ofList) c isWordPart rest
  else if 0x80 ≤ c.toNat then cutWide c rest
  else ⟨.punctuator c, [c], rest⟩

theorem takes_update (hc : c = '+' ∨ c = '-') :
    Takes m ⟨.update, [c, c], rest⟩ (some (.ok ((m.seek (m.pos + 2)).token .update))) := by
  rcases hc with rfl | rfl <;> rfl

theorem takes_arrow (h : Reads b m.pos ('=' :: '>' :: rest)) :
    Takes m ⟨.arrow, ['=', '>'], rest⟩
      ((b.nextSignificant (m.seek (m.pos + 2)).pos).bind fun significant =>
        let after := m.seek (m.pos + 2)
        let s := if significant = some (byte '{') then after.state
          else { after.state with arrowDepths := after.state.depth :: after.state.arrowDepths }
        some (.ok (Cursor.token { after with state := s } .arrow))) := by
  have hnext := nextSignificant_eq ((h.next (by decide)).next (by decide))
  have hcurly := nextSignificant_byte (d := '{') (by decide) rest
  simp only [seek, hnext, Option.bind_some, hcurly]
  rfl

section

variable {x : UInt8} (hbyte : IsByteOf x c) (h : Reads b m.pos (c :: rest))

include hbyte h

theorem stepOther_takes : Takes m (cutOther c rest) (m.stepOther b x m.pos) := by
  have heq {d : Char} (hd : d.toNat < 0x80) : x = byte d ↔ c = d := hbyte.eq_byte hd
  have hfraction : (c = '.' ∧ b[m.pos + 1]?.any isDigit = true) ↔
      (c = '.' ∧ (rest.head?.map Char.isDigit).getD false = true) := by
    refine and_congr_right ?_
    rintro rfl
    rw [h.any_next (by decide) isDigit_isClass]
    cases rest <;> rfl
  have hupdate : ((c = '+' ∨ c = '-') ∧ b[m.pos + 1]? = some x) ↔
      ((c = '+' ∨ c = '-') ∧ rest.head? = some c) := by
    refine and_congr_right fun hc => ?_
    have hascii : c.toNat < 0x80 := by rcases hc with rfl | rfl <;> decide
    rw [(heq hascii).2 rfl, h.getElem?_next hascii hascii]
  have harrow : (c = '=' ∧ b[m.pos + 1]? = some (byte '>')) ↔ (c = '=' ∧ rest.head? = some '>') := by
    refine and_congr_right ?_
    rintro rfl
    exact h.getElem?_next (by decide) (by decide)
  rw [stepOther, cutOther]
  simp only [hbyte.apply_eq isDigit_isClass, hbyte.apply_eq startsWord_isClass, hbyte.le_iff,
    heq (d := '.') (by decide), heq (d := '+') (by decide), heq (d := '-') (by decide),
    heq (d := '=') (by decide), heq (d := ',') (by decide), heq (d := ';') (by decide), hfraction,
    hupdate, harrow]
  by_cases hdigit : c.isDigit = true
  · rw [if_pos hdigit, if_pos (.inl hdigit)]
    exact takes_number (isDigit_isClass.chars c hdigit) h
  rw [if_neg hdigit]
  by_cases hpoint : c = '.' ∧ (rest.head?.map Char.isDigit).getD false = true
  · have hascii : c.toNat < 0x80 := by rw [hpoint.1]; decide
    rw [if_pos hpoint, if_pos (.inr hpoint)]
    exact takes_number hascii h
  rw [if_neg hpoint, if_neg (not_or.2 ⟨hdigit, hpoint⟩)]
  by_cases hsame : (c = '+' ∨ c = '-') ∧ rest.head? = some c
  · rw [if_pos hsame, if_pos hsame]
    exact takes_update hsame.1
  rw [if_neg hsame, if_neg hsame]
  by_cases hbody : c = '=' ∧ rest.head? = some '>'
  · obtain ⟨rfl, hhead⟩ := hbody
    obtain ⟨rest, rfl⟩ := List.head?_eq_some_iff.1 hhead
    rw [if_pos ⟨rfl, rfl⟩, if_pos ⟨rfl, rfl⟩]
    exact takes_arrow h
  rw [if_neg hbody, if_neg hbody]
  by_cases hstart : isIdentifierStart c = true
  · rw [if_pos hstart, if_pos hstart]
    exact takes_word (isWordPart_of_isIdentifierPart (isIdentifierPart_of_isIdentifierStart hstart)) h
  rw [if_neg hstart, if_neg hstart]
  by_cases hwide : 0x80 ≤ c.toNat
  · rw [if_pos hwide, if_pos hwide]
    exact takes_wide hwide h
  · have hascii := Nat.lt_of_not_le hwide
    have hsize : Text.byteSize [c] = 1 := utf8Size_ascii hascii
    rw [if_neg hwide, if_neg hwide, hbyte.ofNat_eq hascii, Takes, hsize]
    rfl

theorem stepToken_takes (hline : c ≠ '\n') (hblank : ¬ isInlineBlank c = true) (hslash : c ≠ '/')
    (hhtml : ¬ (c = '<' ∧ ['!', '-', '-'].isPrefixOf rest ∨
      c = '-' ∧ m.state.context.lineStart ∧ ['-', '>'].isPrefixOf rest)) :
    Takes m (cut m.state.context c rest) (m.stepToken b x m.pos) := by
  have heq {d : Char} (hd : d.toNat < 0x80) : x = byte d ↔ c = d := hbyte.eq_byte hd
  by_cases hquote : c = '\'' ∨ c = '"'
  · have hquote' : x = byte '\'' ∨ x = byte '"' :=
      hquote.imp (heq (by decide)).2 (heq (by decide)).2
    obtain rfl : x = byte c := (heq (by rcases hquote with rfl | rfl <;> decide)).2 rfl
    rw [stepToken, if_pos hquote', cut_quote hquote]
    exact takes_string hquote h
  by_cases hbacktick : c = '\x60'
  · subst hbacktick
    obtain rfl : x = byte '\x60' := (heq (by decide)).2 rfl
    exact takes_template .template (by decide) h rfl fun _ _ => rfl
  by_cases hopener : ∃ d : Delimiter, c = d.opener
  · obtain ⟨d, rfl⟩ := hopener
    obtain rfl : x = byte d.opener := (heq (by cases d <;> decide)).2 rfl
    cases d with
    | round => exact takes_opener (d := .round) h
    | square => exact takes_opener (d := .square) h
    | curly => exact takes_opener (d := .curly) h
  by_cases hcloser : ∃ d : Delimiter, c = d.closer
  · obtain ⟨d, rfl⟩ := hcloser
    obtain rfl : x = byte d.closer := (heq (by cases d <;> decide)).2 rfl
    cases d with
    | round => exact takes_closer (d := .round) h nofun
    | square => exact takes_closer (d := .square) h nofun
    | curly =>
      by_cases hsubstitution : m.state.context.inSubstitution = true
      · have hcut : cut m.state.context '}' rest = cutTemplate .templateTail '}' rest := by
          simp [cut, isInlineBlank, hsubstitution]
        exact hcut ▸ takes_templateTail h hsubstitution
      · have hcut : cut m.state.context '}' rest = ⟨.closer .curly, ['}'], rest⟩ := by
          simp [cut, isInlineBlank, hsubstitution, Delimiter.ofOpener?, Delimiter.ofCloser?]
        exact hcut ▸ takes_closer (d := .curly) h fun hd => hsubstitution hd.2
  simp only [not_exists] at hopener hcloser
  have hopener' (d : Delimiter) : x ≠ byte d.opener := mt (heq (by cases d <;> decide)).1 (hopener d)
  have hcloser' (d : Delimiter) : x ≠ byte d.closer := mt (heq (by cases d <;> decide)).1 (hcloser d)
  have hcut : cut m.state.context c rest = cutOther c rest := by
    rw [cut, if_neg hline, if_neg hblank, if_neg hslash, if_neg fun h => hhtml (.inl h),
      if_neg fun h => hhtml (.inr h), if_neg hquote, if_neg hbacktick,
      if_neg fun h => hcloser .curly h.1, ofOpener?_eq_none hopener, ofCloser?_eq_none hcloser]
    rfl
  have hstep : m.stepToken b x m.pos = m.stepOther b x m.pos := by
    have hbrackets : ∀ d : Char, d ∈ ['(', '[', '{', ')', ']', '}'] → ¬ x = byte d := by
      simp only [List.forall_mem_cons]
      exact ⟨hopener' .round, hopener' .square, hopener' .curly, hcloser' .round, hcloser' .square,
        hcloser' .curly, List.forall_mem_nil _⟩
    rw [stepToken, if_neg fun h => hquote (h.imp (heq (by decide)).1 (heq (by decide)).1),
      if_neg (mt (heq (by decide)).1 hbacktick)]
    simp (disch := decide) only [hbrackets, if_false]
  rw [hcut, hstep]
  exact stepOther_takes hbyte h

end

theorem step_takes (h : Reads b m.pos (c :: rest)) :
    Takes m (cut m.state.context c rest) (m.step b) := by
  obtain ⟨x, hx, hbyte⟩ := h.getElem?_head
  have heq {d : Char} (hd : d.toNat < 0x80) : x = byte d ↔ c = d := hbyte.eq_byte hd
  obtain ⟨html, hhtml, hopens⟩ := startsHtml_eq hbyte h
  rw [step, hx]
  simp only [Option.bind_eq_bind, Option.bind_some, hhtml, heq (d := '\n') (by decide),
    heq (d := '/') (by decide), hbyte.apply_eq isBlank_isClass]
  by_cases hline : c = '\n'
  · subst hline
    rfl
  rw [if_neg hline]
  by_cases hblank : isInlineBlank c = true
  · rw [if_pos hblank, cut, if_neg hline, if_pos hblank]
    have hsize : Text.byteSize [c] = 1 := utf8Size_ascii (isBlank_isClass.chars c hblank)
    rw [Takes, hsize]
    rfl
  rw [if_neg hblank]
  by_cases hslash : c = '/'
  · subst hslash
    simp only [true_and, if_true, h.getElem?_next (by decide) (show '/'.toNat < 0x80 by decide),
      h.getElem?_next (by decide) (show '*'.toNat < 0x80 by decide),
      h.getElem?_next (by decide) (show '='.toNat < 0x80 by decide)]
    rw [cut_slash]
    exact takes_slash h
  rw [if_neg fun h => hslash h.1, if_neg fun h => hslash h.1, if_neg hslash]
  by_cases hcomment : html = true
  · rw [if_pos hcomment]
    have hcut : cut m.state.context c rest = ⟨.htmlComment, c :: lineText rest, afterLine rest⟩ := by
      rcases hopens.1 hcomment with ⟨rfl, h⟩ | ⟨rfl, hstart, h⟩ <;>
        simp [cut, isInlineBlank, *]
    exact hcut ▸ takes_htmlComment h hline
  · rw [if_neg hcomment]
    exact stepToken_takes hbyte h hline hblank hslash (mt hopens.2 hcomment)


end ParseGoal.Ecma.Cursor
