import ParseGoal.Proofs.Cursor.Loops
import ParseGoal.Proofs.Ecma.Lookahead

/-!
Comments, and what stands next past blanks and comments, in bytes. Both looks ahead end, and all their
slices are in range.
-/
namespace ParseGoal.Ecma

/-- A comment's body ends with what closes it. -/
theorem commentBody_eq_append {text body after : List Char} (h : commentBody text = some (body, after)) :
    ∃ inner, body = inner ++ ['*', '/'] := by
  fun_induction commentBody text generalizing body after with
  | case1 => cases h
  | case2 => exact ⟨[], by simpa using (Prod.mk.inj (Option.some.inj h)).1.symm⟩
  | case3 c rest _ ih =>
    obtain ⟨⟨body', after'⟩, hrest, heq⟩ := Option.map_eq_some_iff.1 h
    obtain ⟨inner, rfl⟩ := ih hrest
    exact ⟨c :: inner, (Prod.mk.inj heq).1.symm⟩

namespace Cursor

variable {b : Bytes} {pos : Nat} {text : List Char}

theorem closeAt?_append {wide : Bytes} (hwide : ∀ x ∈ wide, 0x80 ≤ x) (rest : Bytes) :
    closeAt? (wide ++ rest) = (closeAt? rest).map (· + wide.length) := by
  induction wide with
  | nil => simp
  | cons x wide ih =>
    have hx : ¬ (x = byte '*' ∧ (wide ++ rest).head? = some (byte '/')) := by
      rintro ⟨rfl, -⟩
      exact absurd (hwide _ List.mem_cons_self) (by decide)
    rw [List.cons_append, closeAt?, if_neg hx, ih fun y hy => hwide y (List.mem_cons_of_mem _ hy),
      Option.map_map, List.length_cons]
    congr 1

/-- Where a comment closes, in bytes. -/
theorem closeAt?_encode (text : List Char) :
    closeAt? (Utf8.encode text) = (commentBody text).map fun found => Text.byteSize found.1 - 2 := by
  induction text with
  | nil => rfl
  | cons c rest ih =>
    have hlater : (closeAt? (Utf8.encode rest)).map (· + c.utf8Size) =
        (commentBody rest).map fun found => Text.byteSize (c :: found.1) - 2 := by
      rw [ih]
      cases hbody : commentBody rest with
      | none => rfl
      | some found =>
        obtain ⟨body, after⟩ := found
        obtain ⟨inner, rfl⟩ := commentBody_eq_append hbody
        simp only [Option.map_some]
        rw [Option.some_inj, Text.byteSize_cons, Text.byteSize_append]
        have htwo : Text.byteSize ['*', '/'] = 2 := rfl
        omega
    by_cases hc : c.toNat < 0x80
    · have hcloses : (byte c = byte '*' ∧ (Utf8.encode rest).head? = some (byte '/')) ↔
          (c = '*' ∧ rest.head? = some '/') :=
        and_congr (byte_inj hc (by decide)) (firstByte_eq (by decide) rest)
      rw [encode_cons, utf8EncodeChar_ascii hc, List.singleton_append, closeAt?, commentBody]
      simp only [hcloses]
      split
      · rfl
      · rw [Option.map_map, ← utf8Size_ascii hc]
        exact hlater
    · have hc := Nat.le_of_not_lt hc
      rw [encode_cons, closeAt?_append (le_of_mem_utf8EncodeChar hc), String.length_utf8EncodeChar,
        commentBody, if_neg fun h => ne_of_wide hc (by decide) h.1, Option.map_map]
      exact hlater

/-- What is sliced and searched at a comment, and where the scan goes on behind it. -/
theorem slice_comment {c d : Char} {rest : List Char} (hc : c.toNat < 0x80) (hd : d.toNat < 0x80)
    (h : Reads b pos (c :: d :: rest)) : slice? b (pos + 2) b.length = some (Utf8.encode rest) :=
  ((h.next hc).next hd).slice?_tail

theorem Reads.inComment {rest : List Char} (h : Reads b pos ('/' :: '*' :: rest)) : Reads b (pos + 2) rest :=
  (h.next (by decide)).next (by decide)

theorem length_afterComment {rest body after : List Char} (hbody : commentBody rest = some (body, after)) :
    after.length ≤ ('*' :: rest).length := by
  rw [← commentBody_append hbody, List.length_cons, List.length_append]
  omega

theorem reads_afterComment {rest body after : List Char} (h : Reads b (pos + 2) rest)
    (hbody : commentBody rest = some (body, after)) :
    Reads b (pos + 2 + (Text.byteSize body - 2) + 2) after := by
  obtain ⟨inner, hinner⟩ := commentBody_eq_append hbody
  rw [← commentBody_append hbody] at h
  have hsize : pos + 2 + (Text.byteSize body - 2) + 2 = pos + 2 + Text.byteSize body := by
    have htwo : Text.byteSize ['*', '/'] = 2 := rfl
    rw [hinner, Text.byteSize_append]
    omega
  exact hsize ▸ h.append

/-- The inside of a comment, in bytes. -/
theorem contains_inside {rest body after : List Char} (h : Reads b (pos + 2) rest)
    (hbody : commentBody rest = some (body, after)) :
    ∃ inside, slice? b (pos + 2) (pos + 2 + (Text.byteSize body - 2)) = some inside ∧
      slice? (Utf8.encode rest) 0 (Text.byteSize body - 2) = some inside ∧
      inside.contains (byte '\n') = body.contains '\n' := by
  obtain ⟨inner, hinner⟩ := commentBody_eq_append hbody
  rw [← commentBody_append hbody, hinner, List.append_assoc] at h ⊢
  have hsize : Text.byteSize (inner ++ ['*', '/']) - 2 = Text.byteSize inner := by
    rw [Text.byteSize_append]
    rfl
  refine ⟨Utf8.encode inner, ?_, ?_, ?_⟩
  · rw [hsize, h.slice?_append]
  · have hstart := (Reads.start (inner ++ (['*', '/'] ++ after))).slice?_append
    rwa [Nat.zero_add, ← hsize] at hstart
  · rw [Bool.eq_iff_iff, List.contains_iff_mem, List.contains_iff_mem, byte_mem_encode (by decide)]
    simp

theorem firstByte_singleton (c : Char) (rest : List Char) : firstByte [c] = firstByte (c :: rest) := by
  obtain ⟨x, more, heq, -⟩ := head_utf8EncodeChar c
  rw [firstByte, firstByte, encode_cons, encode_cons, heq]
  rfl

/-- At a slash: comments are passed over, and anything else that starts with a slash is visible. -/
theorem nextSignificant_slash_eq {rest : List Char} (h : Reads b pos ('/' :: rest))
    (ih : ∀ {pos : Nat} {text : List Char}, text.length ≤ rest.length → Reads b pos text →
      b.nextSignificant pos = some ((Ecma.nextSignificant text).bind fun c => firstByte [c])) :
    b.nextSignificant pos = some ((Ecma.nextSignificant ('/' :: rest)).bind fun c => firstByte [c]) := by
  obtain ⟨x, hx, hbyte⟩ := h.getElem?_head
  have hline := h.getElem?_next (by decide) (show '/'.toNat < 0x80 by decide)
  have hblock := h.getElem?_next (by decide) (show '*'.toNat < 0x80 by decide)
  rw [Bytes.nextSignificant, if_pos h.lt_length, hx]
  simp (disch := decide) only [Option.bind_eq_bind, Option.bind_some, hbyte.eq_byte,
    hbyte.apply_eq isBlank_isClass, true_and, hline, hblock]
  rw [if_neg (by decide), nextSignificant_slash ⟨false, false, false⟩, cutSlash]
  by_cases hline : rest.head? = some '/'
  · have hsplit : lineText ('/' :: rest) ++ afterLine ('/' :: rest) = '/' :: rest :=
      List.takeWhile_append_dropWhile
    have hafter := Reads.append (hsplit ▸ h)
    rw [if_pos hline, if_pos hline, skipLine_eq h]
    exact ih (List.length_dropWhile_le ..) hafter
  rw [if_neg hline, if_neg hline]
  by_cases hblock : rest.head? = some '*'
  · obtain ⟨rest, rfl⟩ := List.head?_eq_some_iff.1 hblock
    rw [if_pos hblock, if_pos hblock, slice_comment (by decide) (by decide) h, List.tail_cons]
    simp only [Option.bind_some, closeAt?_encode]
    cases hbody : commentBody rest with
    | none => rfl
    | some found => exact ih (length_afterComment hbody) (reads_afterComment h.inComment hbody)
  · have hfirst : firstByte ['/'] = some x := by rw [firstByte_singleton '/' rest, ← h.get, hx]
    rw [if_neg hblock, if_neg hblock, if_neg Bool.false_ne_true]
    split_ifs <;> exact congrArg some hfirst.symm

theorem nextSignificant_eq (h : Reads b pos text) :
    b.nextSignificant pos = some ((Ecma.nextSignificant text).bind fun c => firstByte [c]) := by
  -- The induction is on the length, since a comment is passed over as a whole.
  induction hlength : text.length using Nat.strong_induction_on generalizing text pos with
  | _ n ih =>
    cases text with
    | nil =>
      rw [Bytes.nextSignificant, if_neg h.not_lt_length]
      rfl
    | cons c rest =>
      obtain ⟨x, hx, hbyte⟩ := h.getElem?_head
      rw [List.length_cons] at hlength
      by_cases hslash : c = '/'
      · subst hslash
        exact nextSignificant_slash_eq h fun hshort h => ih _ (by omega) h rfl
      rw [Bytes.nextSignificant, if_pos h.lt_length, hx]
      simp (disch := decide) only [Option.bind_eq_bind, Option.bind_some, hbyte.eq_byte,
        hbyte.apply_eq isBlank_isClass]
      by_cases hblank : c = '\n' ∨ isInlineBlank c = true
      · have hc : c.toNat < 0x80 := by
          rcases hblank with rfl | hblank
          · decide
          · exact isBlank_isClass.chars c hblank
        rw [if_pos hblank, nextSignificant_blank hblank]
        exact ih _ (by omega) (h.next hc) rfl
      · rw [if_neg hblank, if_neg fun h => hslash h.1, if_neg fun h => hslash h.1,
          nextSignificant_visible hblank hslash, Option.bind_some, firstByte_singleton c rest, ← h.get, hx]

theorem takeWhile_encode (text : List Char) :
    (Utf8.encode text).takeWhile continuesWord = Utf8.encode (text.takeWhile isIdentifierPart) := by
  induction text with
  | nil => rfl
  | cons c rest ih =>
    by_cases hc : c.toNat < 0x80
    · rw [encode_cons, utf8EncodeChar_ascii hc, List.singleton_append, List.takeWhile_cons, ih,
        continuesWord_isClass.apply_byte hc, List.takeWhile_cons]
      split
      · rw [encode_cons, utf8EncodeChar_ascii hc, List.singleton_append]
      · rfl
    · have hc := Nat.le_of_not_lt hc
      obtain ⟨x, more, heq, hx, -⟩ := utf8EncodeChar_wide hc
      have hwide : continuesWord x = false :=
        continuesWord_isClass.apply_wide (UInt8.le_trans (by decide) hx)
      rw [encode_cons, heq, List.cons_append, List.takeWhile_cons, hwide, List.takeWhile_cons,
        continuesWord_isClass.not_wide hc]
      rfl

theorem operand_isClass :
    IsClass (fun x => isDigit x || x == byte '\'' || x == byte '"' || x == byte '!' || x == byte '~')
      (fun c => c.isDigit || c == '\'' || c == '"' || c == '!' || c == '~') :=
  (((isDigit_isClass.or (isClass_byte (by decide))).or (isClass_byte (by decide))).or
    (isClass_byte (by decide))).or (isClass_byte (by decide))

/-- At a slash: block comments within a line are passed over, and nothing else that starts with a slash. -/
theorem operandFollows_slash_eq {rest : List Char} (h : Reads b pos ('/' :: rest))
    (ih : ∀ {pos : Nat} {text : List Char}, text.length ≤ rest.length → Reads b pos text →
      b.operandFollows pos = some (Ecma.operandFollows text)) :
    b.operandFollows pos = some (Ecma.operandFollows ('/' :: rest)) := by
  obtain ⟨x, hx, hbyte⟩ := h.getElem?_head
  have hnext := h.getElem?_next (by decide) (show '*'.toNat < 0x80 by decide)
  rw [Bytes.operandFollows, if_pos h.lt_length, hx]
  simp (disch := decide) only [Option.bind_eq_bind, Option.bind_some, hbyte.eq_byte,
    hbyte.apply_eq startsWord_isClass, hbyte.apply_eq operand_isClass, true_and, hnext]
  rw [if_neg (by decide), operandFollows_slash ⟨false, false, false⟩, cutSlash]
  by_cases hblock : rest.head? = some '*'
  · have hline : ¬ rest.head? = some '/' := by rw [hblock]; decide
    obtain ⟨rest, rfl⟩ := List.head?_eq_some_iff.1 hblock
    rw [if_pos hblock, if_neg hline, if_pos hblock, slice_comment (by decide) (by decide) h, List.tail_cons]
    simp only [Option.bind_some, closeAt?_encode]
    cases hbody : commentBody rest with
    | none => rfl
    | some found =>
      obtain ⟨body, after⟩ := found
      obtain ⟨inside, hslice, -, hlines⟩ := contains_inside h.inComment hbody
      have hafter := ih (length_afterComment hbody) (reads_afterComment h.inComment hbody)
      simp only [Option.map_some, hslice, Option.bind_some, hlines, hafter]
      cases body.contains '\n' <;> rfl
  · have hword : ¬ isIdentifierStart '/' = true := by decide
    rw [if_neg hblock, if_neg hword, if_neg hblock, if_neg Bool.false_ne_true]
    split_ifs <;> rfl

theorem operandFollows_eq (h : Reads b pos text) :
    b.operandFollows pos = some (Ecma.operandFollows text) := by
  induction hlength : text.length using Nat.strong_induction_on generalizing text pos with
  | _ n ih =>
    cases text with
    | nil =>
      rw [Bytes.operandFollows, if_neg h.not_lt_length]
      rfl
    | cons c rest =>
      obtain ⟨x, hx, hbyte⟩ := h.getElem?_head
      rw [List.length_cons] at hlength
      by_cases hslash : c = '/'
      · subst hslash
        exact operandFollows_slash_eq h fun hshort h => ih _ (by omega) h rfl
      have hoperand := hbyte.apply_eq operand_isClass
      rw [Bytes.operandFollows, if_pos h.lt_length, hx]
      simp (disch := decide) only [Option.bind_eq_bind, Option.bind_some, hbyte.eq_byte,
        hbyte.apply_eq startsWord_isClass, hoperand]
      by_cases hblank : c = ' ' ∨ c = '\t'
      · have hc : c.toNat < 0x80 := by rcases hblank with rfl | rfl <;> decide
        rw [if_pos hblank, operandFollows_blank hblank]
        exact ih _ (by omega) (h.next hc) rfl
      rw [if_neg hblank, if_neg fun h => hslash h.1, operandFollows_visible hblank hslash]
      by_cases hstart : isIdentifierStart c = true
      · have hpart := isIdentifierPart_of_isIdentifierStart hstart
        have hword : c :: rest.takeWhile isIdentifierPart = (c :: rest).takeWhile isIdentifierPart :=
          (List.takeWhile_cons_of_pos hpart).symm
        have hsplit : (c :: rest).takeWhile isIdentifierPart ++ (c :: rest).dropWhile isIdentifierPart =
          c :: rest := List.takeWhile_append_dropWhile
        have htext := Reads.textSlice? (hsplit.symm ▸ h)
        rw [if_pos hstart, if_pos hstart, h.slice?_tail, hword]
        simp only [Option.bind_some, takeWhile_encode, Utf8.length_encode, htext]
      · rw [if_neg hstart, if_neg hstart]

end Cursor
end ParseGoal.Ecma
