import ParseGoal.Proofs.Cursor.Reading
import ParseGoal.Proofs.Ecma.Literal

/-!
The loops of the scan over bytes end, and where they end is what the reading of characters says.
-/
namespace ParseGoal.Ecma.Cursor

variable {b : Bytes} {pos : Nat} {text : List Char}

theorem lt_length_of_getElem? {i : Nat} {x : UInt8} (hx : b[i]? = some x) : i < b.length := by
  obtain ⟨h, -⟩ := List.getElem?_eq_some_iff.1 hx
  exact h

theorem skipLine_of_getElem? {i : Nat} {x : UInt8} (hx : b[i]? = some x) :
    b.skipLine i = if x = byte '\n' then some i else b.skipLine (i + 1) := by
  rw [Bytes.skipLine, if_pos (lt_length_of_getElem? hx), hx]
  rfl

theorem skipLine_eq (h : Reads b pos text) :
    b.skipLine pos = some (pos + Text.byteSize (lineText text)) := by
  induction text generalizing pos with
  | nil =>
    rw [Bytes.skipLine, if_neg h.not_lt_length]
    rfl
  | cons c rest ih =>
    by_cases hline : c = '\n'
    · subst hline
      obtain ⟨x, hx, hbyte⟩ := h.getElem?_head
      rw [skipLine_of_getElem? hx, if_pos ((hbyte.eq_byte (by decide)).2 rfl)]
      rfl
    · have htext : lineText (c :: rest) = c :: lineText rest :=
        List.takeWhile_cons_of_pos (bne_iff_ne.2 hline)
      have hpass : b.skipLine pos = b.skipLine (pos + c.utf8Size) := h.pass fun i x hx hbyte => by
        rw [skipLine_of_getElem? hx, if_neg (mt (hbyte.eq_byte (by decide)).1 hline)]
      rw [hpass, ih h.cons, htext, Text.byteSize_cons, Nat.add_assoc]

theorem flagsEnd_of_getElem? {i : Nat} {x : UInt8} (hx : b[i]? = some x) :
    b.flagsEnd i = if continuesWord x then b.flagsEnd (i + 1) else some i := by
  rw [Bytes.flagsEnd, hx]

theorem flagsEnd_eq (h : Reads b pos text) :
    b.flagsEnd pos = some (pos + Text.byteSize (text.takeWhile isIdentifierPart)) := by
  induction text generalizing pos with
  | nil =>
    rw [Bytes.flagsEnd, h.getElem?_end]
    rfl
  | cons c rest ih =>
    obtain ⟨x, hx, hbyte⟩ := h.getElem?_head
    rw [flagsEnd_of_getElem? hx, hbyte.apply_eq continuesWord_isClass, List.takeWhile_cons]
    by_cases hc : isIdentifierPart c = true
    · have hascii := toNat_lt_of_isIdentifierPart hc
      rw [if_pos hc, if_pos hc, ih (h.next hascii), Text.byteSize_cons, utf8Size_ascii hascii,
        Nat.add_assoc]
    · rw [if_neg hc, if_neg hc]
      rfl

theorem wordEnd_eq (h : Reads b pos text) :
    b.wordEnd pos = some (pos + Text.byteSize (text.takeWhile isWordPart)) := by
  induction text generalizing pos with
  | nil =>
    rw [Bytes.wordEnd, h.getElem?_end]
    rfl
  | cons c rest ih =>
    obtain ⟨x, hx, hbyte⟩ := h.getElem?_head
    rw [Bytes.wordEnd, hx, List.takeWhile_cons]
    dsimp only
    rw [hbyte.apply_eq continuesWord_isClass, h.charAt?, isWordPart]
    by_cases hc : c.toNat < 0x80
    · by_cases hpart : isIdentifierPart c = true
      · rw [if_pos hpart, if_pos hc, if_pos hpart, ih (h.next hc), Text.byteSize_cons, utf8Size_ascii hc,
          Nat.add_assoc]
      · rw [if_neg hpart, if_neg (mt hbyte.le_iff.1 (Nat.not_le.2 hc)), if_pos hc, if_neg hpart]
        rfl
    · have hpart : ¬ isIdentifierPart c = true := fun h => hc (toNat_lt_of_isIdentifierPart h)
      rw [if_neg hpart, if_pos (hbyte.le_iff.2 (Nat.le_of_not_lt hc)), if_neg hc]
      dsimp only
      split
      · rw [ih h.cons, Text.byteSize_cons, Nat.add_assoc]
      · rfl

theorem numberEnd_eq {hexadecimal : Bool} {before : Char} (hascii : before.toNat < 0x80)
    (hbefore : before? b pos = some (byte before)) (h : Reads b pos text) :
    b.numberEnd hexadecimal pos =
      some (pos + Text.byteSize (numberTail hexadecimal before text).1) := by
  induction text generalizing pos before with
  | nil =>
    rw [Bytes.numberEnd, h.getElem?_end]
    rfl
  | cons c rest ih =>
    obtain ⟨x, hx, hbyte⟩ := h.getElem?_head
    have hgoes (hc : c.toNat < 0x80) : b.numberEnd hexadecimal (pos + 1) =
        some (pos + Text.byteSize (c :: (numberTail hexadecimal c rest).1)) := by
      have hlast : before? b (pos + 1) = some (byte c) := by
        rw [before?, if_neg (Nat.succ_ne_zero pos), Nat.add_sub_cancel, h.get, firstByte_ascii hc]
      rw [ih hc hlast (h.next hc), Text.byteSize_cons, utf8Size_ascii hc, Nat.add_assoc]
    have hpart := hbyte.apply_eq number_isClass
    have hplus : x = byte '+' ↔ c = '+' := hbyte.eq_byte (by decide)
    have hminus : x = byte '-' ↔ c = '-' := hbyte.eq_byte (by decide)
    have he : byte before = byte 'e' ↔ before = 'e' := byte_inj hascii (by decide)
    have hE : byte before = byte 'E' ↔ before = 'E' := byte_inj hascii (by decide)
    rw [Bytes.numberEnd, hx, numberTail]
    dsimp only at hpart ⊢
    rw [hpart]
    by_cases hc : (c.isAlphanum || c == '_' || c == '.') = true
    · have htail : c.isAlphanum = true ∨ c = '_' ∨ c = '.' := by simpa [or_assoc] using hc
      rw [if_pos hc, hgoes (number_isClass.chars c hc), 
        if_pos (htail.imp_right fun h => h.imp_right .inl)]
    · have htail : ¬ c.isAlphanum = true ∧ ¬ c = '_' ∧ ¬ c = '.' := by simpa [and_assoc] using hc
      rw [if_neg hc]
      simp only [hplus, hminus, htail, Bool.false_eq_true, false_or]
      by_cases hsign : (c = '+' ∨ c = '-') ∧ hexadecimal = false
      · have hc : c.toNat < 0x80 := by rcases hsign.1 with rfl | rfl <;> decide
        rw [if_pos hsign, hbefore]
        simp only [Option.bind_eq_bind, Option.bind_some, he, hE]
        by_cases hexponent : before = 'e' ∨ before = 'E'
        · rw [if_pos hexponent, hgoes hc, if_pos ⟨hsign.1, hsign.2, hexponent⟩]
        · rw [if_neg hexponent, if_neg fun h => hexponent h.2.2]
          rfl
      · rw [if_neg hsign, if_neg fun h => hsign ⟨h.1, h.2.1⟩]
        rfl

section

variable {i : Nat} {x : UInt8} {c : Char} (hx : b[i]? = some x) (hbyte : IsByteOf x c)

include hx hbyte

theorem regexEnd_of_getElem? {inClass : Bool} :
    b.regexEnd inClass i =
      if c = '\n' ∨ c = '\r' then some (.error i)
      else if c = '\\' then b.regexEnd inClass (i + 2)
      else if c = '[' then b.regexEnd true (i + 1)
      else if c = ']' then b.regexEnd false (i + 1)
      else if c = '/' ∧ inClass = false then some (.ok (i + 1))
      else b.regexEnd inClass (i + 1) := by
  rw [Bytes.regexEnd, hx]
  simp (disch := decide) only [hbyte.eq_byte]

theorem regexEnd_wide {inClass : Bool} (hc : 0x80 ≤ c.toNat) :
    b.regexEnd inClass i = b.regexEnd inClass (i + 1) := by
  rw [regexEnd_of_getElem? hx hbyte]
  simp (disch := decide) only [ne_of_wide hc, or_self, false_and, if_false]

end

/-- The regular expression that goes on at `pos`, as the reading has it. -/
def RegexEnds (pos : Nat) (outcome : Option (Except Nat Nat)) : Option (List Char × List Char) → Prop
  | some (body, _) => outcome = some (.ok (pos + Text.byteSize body))
  | none => ∃ stop, pos ≤ stop ∧ outcome = some (.error stop)

theorem RegexEnds.map {pos next : Nat} {outcome : Option (Except Nat Nat)}
    {reading : Option (List Char × List Char)} (before : List Char)
    (hnext : next = pos + Text.byteSize before) (h : RegexEnds next outcome reading) :
    RegexEnds pos outcome (reading.map fun (body, after) => (before ++ body, after)) := by
  subst hnext
  cases reading with
  | none =>
    obtain ⟨stop, hle, h⟩ := h
    exact ⟨stop, Nat.le_of_add_right_le hle, h⟩
  | some found =>
    rw [RegexEnds, Nat.add_assoc, ← Text.byteSize_append] at h
    exact h

/-- The character goes by, with all of its bytes. -/
theorem regexEnd_inner {inClass : Bool} {c : Char} {rest : List Char} (hc : IsInner inClass c)
    (h : Reads b pos (c :: rest)) :
    b.regexEnd inClass pos = b.regexEnd (classAfter inClass c) (pos + c.utf8Size) := by
  obtain ⟨x, hx, hbyte⟩ := h.getElem?_head
  by_cases hopen : c = '['
  · subst hopen
    rw [regexEnd_of_getElem? hx hbyte, if_neg hc.line, if_neg hc.escape, if_pos rfl]
    rfl
  by_cases hclose : c = ']'
  · subst hclose
    rw [regexEnd_of_getElem? hx hbyte, if_neg hc.line, if_neg hc.escape, if_neg hopen, if_pos rfl]
    rfl
  rw [classAfter, if_neg hopen, if_neg hclose]
  exact h.pass fun i x hx hbyte => by
    rw [regexEnd_of_getElem? hx hbyte, if_neg hc.line, if_neg hc.escape, if_neg hopen, if_neg hclose,
      if_neg hc.close]

/-- So does a backslash with the character behind it. -/
theorem regexEnd_escape {inClass : Bool} {d : Char} {rest : List Char}
    (h : Reads b pos ('\\' :: d :: rest)) :
    b.regexEnd inClass pos = b.regexEnd inClass (pos + 1 + d.utf8Size) := by
  obtain ⟨x, hx, hbyte⟩ := h.getElem?_head
  rw [regexEnd_of_getElem? hx hbyte, if_neg (by decide), if_pos rfl]
  exact (h.next (by decide)).pass_escaped fun _ _ hx hbyte => regexEnd_wide hx hbyte

theorem regexEnd_backslash (inClass : Bool) (h : Reads b pos ['\\']) :
    b[pos + 2]? = none ∧ b.regexEnd inClass pos = some (.error (pos + 2)) := by
  obtain ⟨x, hx, hbyte⟩ := h.getElem?_head
  have hend := (h.next (by decide)).getElem?_end
  have hnext : b[pos + 2]? = none :=
    List.getElem?_eq_none (Nat.le_succ_of_le (List.getElem?_eq_none_iff.1 hend))
  refine ⟨hnext, ?_⟩
  rw [regexEnd_of_getElem? hx hbyte, if_neg (by decide), if_pos rfl, Bytes.regexEnd, hnext]

theorem regexEnd_close {rest : List Char} (h : Reads b pos ('/' :: rest)) :
    b.regexEnd false pos = some (.ok (pos + 1)) := by
  obtain ⟨x, hx, hbyte⟩ := h.getElem?_head
  rw [regexEnd_of_getElem? hx hbyte]
  rfl

theorem regexEnd_ends {inClass : Bool} (h : Reads b pos text) :
    RegexEnds pos (b.regexEnd inClass pos) (regexBody inClass text) := by
  induction inClass, text using regexBody_induction generalizing pos with
  | nil inClass =>
    rw [Bytes.regexEnd, h.getElem?_end]
    exact ⟨pos, Nat.le_refl pos, rfl⟩
  | line inClass c rest hline =>
    obtain ⟨x, hx, hbyte⟩ := h.getElem?_head
    rw [regexEnd_of_getElem? hx hbyte, if_pos hline, regexBody_line hline]
    exact ⟨pos, Nat.le_refl pos, rfl⟩
  | backslash inClass => exact ⟨pos + 2, Nat.le_add_right .., (regexEnd_backslash inClass h).2⟩
  | escape inClass d rest ih =>
    rw [regexEnd_escape h, regexBody_escape]
    exact (ih (h.next (by decide)).cons).map ['\\', d] (Nat.add_assoc ..)
  | close rest =>
    rw [regexEnd_close h, regexBody_close]
    rfl
  | inner inClass c rest hc ih =>
    rw [regexEnd_inner hc h, regexBody_inner hc]
    exact (ih h.cons).map [c] rfl

/-! Templates. -/

section

variable {i start : Nat} {x : UInt8} {c : Char} {m : Cursor} (hx : b[i]? = some x) (hbyte : IsByteOf x c)

include hx hbyte

theorem template_of_getElem? :
    template b start (m.seek i) =
      if c = '\\' then template b start (m.seek (i + 2))
      else if c = '\x60' then some (.ok ((m.seek (i + 1)).token .literal))
      else if c = '$' ∧ b[i + 1]? = some (byte '{') then
        some (.ok { m with pos := i + 2, state := m.state.afterTemplate start .hole })
      else template b start (m.seek (i + 1)) := by
  rw [template, seek, hx]
  simp (disch := decide) only [hbyte.eq_byte]
  rfl

theorem template_wide (hc : 0x80 ≤ c.toNat) : template b start (m.seek i) = template b start (m.seek (i + 1)) := by
  rw [template_of_getElem? hx hbyte]
  simp (disch := decide) only [ne_of_wide hc, false_and, if_false]

end

theorem template_end {start i : Nat} {m : Cursor} (hi : b[i]? = none) :
    template b start (m.seek i) = some ((m.seek i).fail start .openTemplate) := by
  rw [template, seek, hi]

/-- The stretch of template characters that starts at `pos`, as the reading has it. -/
def TemplateEnds (start pos : Nat) (m : Cursor) (outcome : Option Outcome) :
    Option (TemplateStop × List Char × List Char) → Prop
  | some (stop, body, _) => outcome =
      some (.ok { m with pos := pos + Text.byteSize body, state := m.state.afterTemplate start stop })
  | none => ∃ stop, pos ≤ stop ∧ outcome = some ((m.seek stop).fail start .openTemplate)

theorem TemplateEnds.map {start pos next : Nat} {m : Cursor} {outcome : Option Outcome}
    {reading : Option (TemplateStop × List Char × List Char)} (before : List Char)
    (hnext : next = pos + Text.byteSize before) (h : TemplateEnds start next m outcome reading) :
    TemplateEnds start pos m outcome
      (reading.map fun (stop, body, after) => (stop, before ++ body, after)) := by
  subst hnext
  cases reading with
  | none =>
    obtain ⟨stop, hle, h⟩ := h
    exact ⟨stop, Nat.le_of_add_right_le hle, h⟩
  | some found =>
    rw [TemplateEnds, Nat.add_assoc, ← Text.byteSize_append] at h
    exact h

theorem template_eq {start : Nat} {m : Cursor} (h : Reads b pos text) :
    TemplateEnds start pos m (template b start (m.seek pos)) (templateBody text) := by
  fun_induction templateBody text generalizing pos with
  | case1 => exact ⟨pos, Nat.le_refl pos, template_end h.getElem?_end⟩
  | case2 =>
    obtain ⟨x, hx, hbyte⟩ := h.getElem?_head
    have hend := List.getElem?_eq_none_iff.1 (h.next (by decide)).getElem?_end
    rw [template_of_getElem? hx hbyte, if_pos rfl]
    exact ⟨pos + 2, Nat.le_add_right .., template_end (List.getElem?_eq_none (Nat.le_succ_of_le hend))⟩
  | case3 d rest ih =>
    obtain ⟨x, hx, hbyte⟩ := h.getElem?_head
    have hnext := h.next (by decide)
    have hescaped : template b start (m.seek (pos + 2)) = template b start (m.seek (pos + 1 + d.utf8Size)) :=
      hnext.pass_escaped (f := fun i => template b start (m.seek i)) fun _ _ hx hbyte =>
        template_wide hx hbyte
    rw [template_of_getElem? hx hbyte, if_pos rfl, hescaped]
    exact (ih hnext.cons).map ['\\', d] (Nat.add_assoc ..)
  | case4 rest hslash =>
    obtain ⟨x, hx, hbyte⟩ := h.getElem?_head
    rw [template_of_getElem? hx hbyte, if_neg hslash, if_pos rfl]
    rfl
  | case5 c rest hslash hclose hhole =>
    obtain ⟨x, hx, hbyte⟩ := h.getElem?_head
    obtain ⟨rfl, hbrace⟩ := hhole
    rw [template_of_getElem? hx hbyte, if_neg hslash, if_neg hclose,
      if_pos ⟨rfl, (h.getElem?_next (by decide) (by decide)).2 hbrace⟩]
    rfl
  | case6 c rest hslash hclose hhole ih =>
    have hpass : template b start (m.seek pos) = template b start (m.seek (pos + c.utf8Size)) := by
      by_cases hdollar : c = '$'
      · subst hdollar
        obtain ⟨x, hx, hbyte⟩ := h.getElem?_head
        have hbrace : ¬ b[pos + 1]? = some (byte '{') := fun heq =>
          hhole ⟨rfl, (h.getElem?_next (by decide) (by decide)).1 heq⟩
        rw [template_of_getElem? hx hbyte, if_neg hslash, if_neg hclose, if_neg fun h => hbrace h.2]
        rfl
      · refine h.pass (f := fun i => template b start (m.seek i)) fun i x hx hbyte => ?_
        rw [template_of_getElem? hx hbyte, if_neg hslash, if_neg hclose, if_neg fun h => hdollar h.1]
    rw [hpass]
    exact (ih h.cons).map [c] rfl

/-! Strings. -/

/-- Notes some findings, in order. -/
def recordAll (m : Cursor) (found : List Finding) : Cursor := found.foldl record m

theorem record_seek (m : Cursor) (x : Finding) (pos : Nat) :
    (m.seek pos).record x = (m.record x).seek pos := by
  unfold record
  split <;> rfl

theorem recordAll_cons (m : Cursor) (x : Finding) (found : List Finding) :
    m.recordAll (x :: found) = (m.record x).recordAll found := rfl

/-- What a string notes. -/
def octals (pos : Nat) (parts : List StringPart) : List Finding :=
  (octalOffsets pos parts).map (⟨·, .octalEscape⟩)

theorem octals_cons (pos : Nat) (part : StringPart) (parts : List StringPart) :
    octals pos (part :: parts) =
      (if part.isOctal parts then [⟨pos, .octalEscape⟩] else []) ++
        octals (pos + Text.byteSize part.text) parts := by
  rw [octals, octalOffsets]
  split <;> rfl

theorem octalDigit_isClass :
    IsClass (fun x => isDigit x && x != byte '0') (fun c => c.isDigit && c != '0') :=
  isDigit_isClass.diff (isClass_byte (by decide))

/-- An element that is a digit is a digit of the text. -/
theorem isDigit_head_stringParts {quote : Char} (hquote : quote.isDigit = false) (text : List Char) :
    ((stringParts quote text).1.head?.map StringPart.isDigit).getD false =
      text.head?.any Char.isDigit := by
  fun_cases stringParts quote text with
  | case1 | case2 | case3 | case4 | case7 => rfl
  | case5 => exact hquote.symm
  | case6 c rest _ _ hline => rcases hline with rfl | rfl <;> rfl

section

variable {quote : Char} {start i : Nat} {x : UInt8} {c : Char} {m : Cursor} (hx : b[i]? = some x)
  (hbyte : IsByteOf x c)

include hx hbyte

theorem string_of_getElem? (hquote : quote.toNat < 0x80) :
    string b (byte quote) start (m.seek i) =
      if c = '\n' ∨ c = '\r' then some ((m.seek i).fail start .openString)
      else if c = '\\' then string b (byte quote) start ((m.seek i).stringEscape b)
      else if c = quote then some (.ok (m.seek (i + 1)))
      else string b (byte quote) start (m.seek (i + 1)) := by
  rw [string, seek, hx]
  simp (disch := decide) only [hbyte.eq_byte, hbyte.eq_byte hquote]
  rfl

theorem string_wide (hquote : quote.toNat < 0x80) (hc : 0x80 ≤ c.toNat) :
    string b (byte quote) start (m.seek i) = string b (byte quote) start (m.seek (i + 1)) := by
  rw [string_of_getElem? hx hbyte hquote]
  simp (disch := decide) only [ne_of_wide hc, ne_of_wide hc hquote, or_self, if_false]

end

theorem string_end {quote : UInt8} {start i : Nat} {m : Cursor} (hi : b[i]? = none) :
    string b quote start (m.seek i) = some ((m.seek i).fail start .openString) := by
  rw [string, seek, hi]

/-- An escaped character, with what it notes. -/
theorem stringEscape_eq {d : Char} {rest : List Char} {parts : List StringPart} {m : Cursor}
    (h : Reads b (pos + 1) (d :: rest)) (hparts : (parts.head?.map StringPart.isDigit).getD false =
      rest.head?.any Char.isDigit) (hline : ¬ (d = '\r' ∧ rest.head? = some '\n')) :
    (m.seek pos).stringEscape b =
      (m.recordAll (if (StringPart.escape d).isOctal parts then [⟨pos, .octalEscape⟩] else [])).seek
        (pos + 2) := by
  have hdigit : b[pos + 1]?.any (fun x => isDigit x && x != byte '0') = (d.isDigit && d != '0') := by
    rw [h.get, octalDigit_isClass.firstByte_any]
    rfl
  have hnext {e : Char} (he : e.toNat < 0x80) : b[pos + 1]? = some (byte e) ↔ d = e := by
    rw [h.get, firstByte_eq he, List.head?_cons, Option.some_inj]
  have hcrlf : ¬ (b[pos + 1]? = some (byte '\r') ∧ b[pos + 2]? = some (byte '\n')) := by
    rintro ⟨hreturn, hfeed⟩
    obtain rfl := (hnext (by decide)).1 hreturn
    exact hline ⟨rfl, (h.getElem?_next (by decide) (by decide)).1 hfeed⟩
  have hescape : (m.seek pos).stringEscape b =
      if (d.isDigit && d != '0') = true then ((m.seek pos).record ⟨pos, .octalEscape⟩).seek (pos + 2)
      else if d = '0' ∧ b[pos + 2]?.any isDigit = true then
        ((m.seek pos).record ⟨pos, .octalEscape⟩).seek (pos + 2)
      else m.seek (pos + 2) := by
    rw [← hdigit]
    exact if_congr .rfl rfl (if_congr (and_congr_left fun _ => hnext (by decide)) rfl (if_neg hcrlf))
  have hzero : (d = '0' ∧ b[pos + 2]?.any isDigit = true) ↔
      (d == '0' && (parts.head?.map StringPart.isDigit).getD false) = true := by
    rw [hparts, Bool.and_eq_true, beq_iff_eq]
    refine and_congr_right fun hd => ?_
    subst hd
    rw [h.any_next (by decide) isDigit_isClass]
  rw [hescape, record_seek, StringPart.isOctal]
  simp only [hzero, Bool.or_eq_true]
  split
  · next h => simp only [h, true_or, if_true]; rfl
  · next h =>
    split
    · next h' => simp only [h', or_true, if_true]; rfl
    · next h' => simp only [h, h', or_self]; rfl

/-- The string that starts at `start`, from `pos` on, as the reading has it. -/
def StringEnds (start pos : Nat) (m : Cursor) (outcome : Option Outcome) :
    List StringPart × Option (List Char) → Prop
  | (parts, some _) => outcome =
      some (.ok ((m.recordAll (octals pos parts)).seek (pos + Text.byteSize (stringText parts) + 1)))
  | (parts, none) => ∃ stop, pos + Text.byteSize (stringText parts) ≤ stop ∧
      outcome = some (((m.recordAll (octals pos parts)).seek stop).fail start .openString)

theorem recordAll_append (m : Cursor) (found later : List Finding) :
    m.recordAll (found ++ later) = (m.recordAll found).recordAll later := List.foldl_append

theorem StringEnds.cons {start pos next : Nat} {m : Cursor} {outcome : Option Outcome} {part : StringPart}
    {parts : List StringPart} {after : Option (List Char)}
    (hnext : next = pos + Text.byteSize part.text)
    (h : StringEnds start next (m.recordAll (if part.isOctal parts then [⟨pos, .octalEscape⟩] else []))
      outcome (parts, after)) : StringEnds start pos m outcome (part :: parts, after) := by
  subst hnext
  have htext : Text.byteSize (stringText (part :: parts)) =
      Text.byteSize part.text + Text.byteSize (stringText parts) := Text.byteSize_append ..
  cases after with
  | none =>
    rw [StringEnds, ← recordAll_append, ← octals_cons, Nat.add_assoc pos, ← htext] at h
    exact h
  | some after =>
    rw [StringEnds, ← recordAll_append, ← octals_cons, Nat.add_assoc pos, ← htext] at h
    exact h

/-- A backslash at the end of the text. -/
theorem stringEscape_end {m : Cursor} (hend : b.length ≤ pos + 1) :
    (m.seek pos).stringEscape b = m.seek (pos + 2) := by
  have hnext : b[pos + 1]? = none := List.getElem?_eq_none hend
  rw [stringEscape]
  simp [seek, hnext]

/-- A backslash at the end of a line with two line ends. -/
theorem stringEscape_crlf {rest : List Char} {m : Cursor} (h : Reads b (pos + 1) ('\r' :: '\n' :: rest)) :
    (m.seek pos).stringEscape b = m.seek (pos + 3) := by
  have hreturn : b[pos + 1]? = some (byte '\r') := h.get.trans (firstByte_ascii (by decide) _)
  have hfeed : b[pos + 2]? = some (byte '\n') :=
    (h.getElem?_next (by decide) (by decide)).2 rfl
  have hdigit : (isDigit (byte '\r') && byte '\r' != byte '0') = false := by decide
  have hzero : byte '\r' ≠ byte '0' := by decide
  rw [stringEscape]
  simp [seek, hreturn, hfeed, hdigit, hzero]

theorem string_eq {quote : Char} (hquote : quote = '\'' ∨ quote = '"') {start : Nat} {m : Cursor}
    (h : Reads b pos text) :
    StringEnds start pos m (string b (byte quote) start (m.seek pos)) (stringParts quote text) := by
  have hascii : quote.toNat < 0x80 := by rcases hquote with rfl | rfl <;> decide
  have hdigit : quote.isDigit = false := by rcases hquote with rfl | rfl <;> decide
  have hquoteline : ¬ (quote = '\n' ∨ quote = '\r') := by rcases hquote with rfl | rfl <;> decide
  fun_induction stringParts quote text generalizing pos m with
  | case1 => exact ⟨pos, Nat.le_refl pos, string_end h.getElem?_end⟩
  | case2 =>
    obtain ⟨x, hx, hbyte⟩ := h.getElem?_head
    have hend := List.getElem?_eq_none_iff.1 (h.next (by decide)).getElem?_end
    rw [string_of_getElem? hx hbyte hascii, if_neg (by decide), if_pos rfl, stringEscape_end hend]
    exact ⟨pos + 2, Nat.le_add_right .., string_end (List.getElem?_eq_none (Nat.le_succ_of_le hend))⟩
  | case3 rest parts after heq ih =>
    obtain ⟨x, hx, hbyte⟩ := h.getElem?_head
    have hnext := h.next (by decide)
    rw [heq] at ih
    rw [string_of_getElem? hx hbyte hascii, if_neg (by decide), if_pos rfl, stringEscape_crlf hnext]
    exact (ih ((hnext.next (by decide)).next (by decide))).cons rfl
  | case4 d rest hline parts after heq ih =>
    obtain ⟨x, hx, hbyte⟩ := h.getElem?_head
    have hnext := h.next (by decide)
    have hparts := isDigit_head_stringParts hdigit rest
    rw [heq] at hparts ih
    have hcrlf : ¬ (d = '\r' ∧ rest.head? = some '\n') := by
      rintro ⟨rfl, hhead⟩
      obtain ⟨more, rfl⟩ := List.head?_eq_some_iff.1 hhead
      exact hline more rfl rfl
    rw [string_of_getElem? hx hbyte hascii, if_neg (by decide), if_pos rfl,
      stringEscape_eq hnext hparts hcrlf]
    generalize hm : m.recordAll (if (StringPart.escape d).isOctal parts then [⟨pos, .octalEscape⟩]
      else []) = m'
    have hescaped : string b (byte quote) start (m'.seek (pos + 2)) =
        string b (byte quote) start (m'.seek (pos + 1 + d.utf8Size)) :=
      hnext.pass_escaped (f := fun i => string b (byte quote) start (m'.seek i)) fun _ _ hx hbyte =>
        string_wide hx hbyte hascii
    rw [hescaped]
    exact .cons (Nat.add_assoc ..) (hm ▸ ih hnext.cons)
  | case5 rest hslash =>
    obtain ⟨x, hx, hbyte⟩ := h.getElem?_head
    rw [string_of_getElem? hx hbyte hascii, if_neg hquoteline, if_neg hslash, if_pos rfl]
    rfl
  | case6 c rest hslash hclose hline =>
    obtain ⟨x, hx, hbyte⟩ := h.getElem?_head
    rw [string_of_getElem? hx hbyte hascii, if_pos hline]
    exact ⟨pos, Nat.le_refl pos, rfl⟩
  | case7 c rest hslash hclose hline parts after heq ih =>
    rw [heq] at ih
    have hpass : string b (byte quote) start (m.seek pos) =
        string b (byte quote) start (m.seek (pos + c.utf8Size)) := by
      refine h.pass (f := fun i => string b (byte quote) start (m.seek i)) fun i x hx hbyte => ?_
      rw [string_of_getElem? hx hbyte hascii, if_neg hline, if_neg hslash, if_neg hclose]
    rw [hpass]
    exact (ih h.cons).cons rfl

end ParseGoal.Ecma.Cursor
