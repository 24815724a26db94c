import ParseGoal.Proofs.Cursor.Reading
import ParseGoal.Proofs.Text.Position
import ParseGoal.Proofs.Text.Utf8

/-!
Texts whose lines end in a carriage return and a line feed. What is read of them in characters is what is
read of the text with line feeds alone, with the returns put in; lines and columns stay.
-/
namespace ParseGoal

/-- The items of a list, with `mark` in front of every `item`. -/
def markBefore {α : Type} [DecidableEq α] (mark item : α) (l : List α) : List α :=
  l.flatMap fun a => if a = item then [mark, a] else [a]

/-- A text with a carriage return in front of every line feed. -/
def Text.withReturns (text : List Char) : List Char := markBefore '\r' '\n' text

/-- Bytes with a carriage return in front of every line feed. -/
def Utf8.withReturns (bytes : Bytes) : Bytes := markBefore 0x0D 0x0A bytes

section

variable {α : Type} [DecidableEq α] {mark item a : α} {l p : List α}

theorem markBefore_append (l more : List α) :
    markBefore mark item (l ++ more) = markBefore mark item l ++ markBefore mark item more :=
  List.flatMap_append

theorem markBefore_cons_item (l : List α) :
    markBefore mark item (item :: l) = mark :: item :: markBefore mark item l := by
  simp [markBefore]

theorem markBefore_cons_of_ne (h : a ≠ item) (l : List α) :
    markBefore mark item (a :: l) = a :: markBefore mark item l := by
  simp [markBefore, h]

theorem markBefore_of_not_mem (h : item ∉ l) : markBefore mark item l = l := by
  induction l with
  | nil => rfl
  | cons a l ih =>
    obtain ⟨ha, hl⟩ := List.ne_and_not_mem_of_not_mem_cons h
    rw [markBefore_cons_of_ne ha.symm, ih hl]

/-- A beginning without the mark and the item is the same with and without the marks. -/
theorem prefix_markBefore_iff (hmark : mark ∉ p) (hitem : item ∉ p) :
    p <+: markBefore mark item l ↔ p <+: l := by
  induction p generalizing l with
  | nil => simp
  | cons a p ih =>
    obtain ⟨hmark', hmark⟩ := List.ne_and_not_mem_of_not_mem_cons hmark
    obtain ⟨hitem', hitem⟩ := List.ne_and_not_mem_of_not_mem_cons hitem
    cases l with
    | nil => rfl
    | cons b l =>
      by_cases hb : b = item
      · subst hb
        rw [markBefore_cons_item, List.cons_prefix_cons, List.cons_prefix_cons]
        exact ⟨fun h => absurd h.1.symm hmark', fun h => absurd h.1.symm hitem'⟩
      · rw [markBefore_cons_of_ne hb, List.cons_prefix_cons, List.cons_prefix_cons, ih hmark hitem]

/-- The first item, if it is neither the mark nor what is marked. -/
theorem head?_markBefore (hmark : a ≠ mark) (hitem : a ≠ item) :
    (markBefore mark item l).head? = some a ↔ l.head? = some a := by
  have hstarts (l : List α) : l.head? = some a ↔ [a] <+: l := by
    cases l <;> simp [eq_comm]
  rw [hstarts, hstarts, prefix_markBefore_iff (by simpa using hmark.symm) (by simpa using hitem.symm)]

variable {q : α → Bool}

/-- A run without the mark and the item ends where it ended. -/
theorem span_markBefore (hmark : q mark = false) (hitem : q item = false) :
    (markBefore mark item l).takeWhile q = l.takeWhile q ∧
      (markBefore mark item l).dropWhile q = markBefore mark item (l.dropWhile q) := by
  induction l with
  | nil => exact ⟨rfl, rfl⟩
  | cons a l ih =>
    by_cases ha : a = item
    · subst ha
      simp [markBefore_cons_item, hmark, hitem]
    · rw [markBefore_cons_of_ne ha]
      by_cases hq : q a = true
      · simp [hq, ih]
      · simp [hq, markBefore_cons_of_ne ha]

end

namespace Text

variable {c : Char} {rest : List Char}

@[simp] theorem withReturns_nil : withReturns [] = [] := rfl

theorem withReturns_feed (rest : List Char) :
    withReturns ('\n' :: rest) = '\r' :: '\n' :: withReturns rest := markBefore_cons_item rest

theorem withReturns_cons (h : c ≠ '\n') (rest : List Char) :
    withReturns (c :: rest) = c :: withReturns rest := markBefore_cons_of_ne h rest

@[simp] theorem withReturns_append (text more : List Char) :
    withReturns (text ++ more) = withReturns text ++ withReturns more := markBefore_append text more

theorem withReturns_of_not_mem (h : '\n' ∉ rest) : withReturns rest = rest := markBefore_of_not_mem h

theorem head?_withReturns (hreturn : c ≠ '\r') (hfeed : c ≠ '\n') (rest : List Char) :
    (withReturns rest).head? = some c ↔ rest.head? = some c := head?_markBefore hreturn hfeed

theorem isPrefixOf_withReturns {p : List Char} (hreturn : '\r' ∉ p) (hfeed : '\n' ∉ p)
    (rest : List Char) : p.isPrefixOf (withReturns rest) = p.isPrefixOf rest := by
  rw [Bool.eq_iff_iff, List.isPrefixOf_iff_prefix, List.isPrefixOf_iff_prefix]
  exact prefix_markBefore_iff hreturn hfeed

theorem byteSize_withReturns (text : List Char) :
    byteSize (withReturns text) = byteSize text + text.count '\n' := by
  induction text with
  | nil => rfl
  | cons c text ih =>
    by_cases hc : c = '\n'
    · subst hc
      have hfeed : '\n'.utf8Size = 1 := rfl
      have hreturn : '\r'.utf8Size = 1 := rfl
      rw [withReturns_feed, byteSize_cons, byteSize_cons, byteSize_cons, ih, List.count_cons_self, hfeed,
        hreturn]
      omega
    · rw [withReturns_cons hc, byteSize_cons, byteSize_cons, ih, List.count_cons_of_ne hc, Nat.add_assoc]

theorem count_withReturns (text : List Char) : (withReturns text).count '\n' = text.count '\n' := by
  induction text with
  | nil => rfl
  | cons c text ih =>
    by_cases hc : c = '\n'
    · subst hc
      rw [withReturns_feed, List.count_cons_of_ne (by decide), List.count_cons_self, List.count_cons_self, ih]
    · rw [withReturns_cons hc, List.count_cons_of_ne hc, List.count_cons_of_ne hc, ih]

/-- A line is the same, but for the return at its end. -/
theorem lastLine_withReturns (text : List Char) :
    Position.lastLine (withReturns text) = Position.lastLine text := by
  induction text using List.reverseRecOn with
  | nil => rfl
  | append_singleton text c ih =>
    by_cases hc : c = '\n'
    · subst hc
      have hpair : withReturns ['\n'] = ['\r'] ++ ['\n'] := rfl
      rw [withReturns_append, hpair, ← List.append_assoc, Position.lastLine_concat, if_pos rfl,
        Position.lastLine_concat, if_pos rfl]
    · have hsame : withReturns [c] = [c] := withReturns_cons hc []
      rw [withReturns_append, hsame, Position.lastLine_concat, Position.lastLine_concat, ih]

/-- The same place, behind the returns that were put in. -/
theorem ofOffset_withReturns (before after : List Char) :
    Position.ofOffset (withReturns (before ++ after)) (byteSize (withReturns before)) =
      { Position.ofOffset (before ++ after) (byteSize before) with
        offset := byteSize before + before.count '\n' } := by
  rw [withReturns_append, Position.ofOffset_byteSize, Position.ofOffset_byteSize, count_withReturns,
    lastLine_withReturns, byteSize_withReturns]

end Text

namespace Utf8

theorem withReturns_append (bytes more : Bytes) :
    withReturns (bytes ++ more) = withReturns bytes ++ withReturns more := markBefore_append bytes more

theorem encode_withReturns (text : List Char) :
    encode (Text.withReturns text) = withReturns (encode text) := by
  induction text with
  | nil => rfl
  | cons c text ih =>
    by_cases hc : c = '\n'
    · subst hc
      rw [Text.withReturns_feed]
      exact congrArg (0x0D :: 0x0A :: ·) ih
    · have hfeed : (0x0A : UInt8) ∉ encode [c] := by
        have hmem := Ecma.Cursor.byte_mem_encode (d := '\n') (by decide) [c]
        exact fun h => hc (List.mem_singleton.1 (hmem.1 h)).symm
      have hsame : withReturns (encode [c]) = encode [c] := markBefore_of_not_mem hfeed
      have hsplit (text : List Char) : encode (c :: text) = encode [c] ++ encode text := encode_append [c] text
      rw [Text.withReturns_cons hc, hsplit (Text.withReturns text), hsplit text, ih, withReturns_append, hsame]

theorem decode_encode_append (text : List Char) (bytes : Bytes) :
    decode (encode text ++ bytes) = (text ++ (decode bytes).1, (decode bytes).2) := by
  induction text with
  | nil => rfl
  | cons c text ih =>
    have hnext : next? (encode (c :: text) ++ bytes) = some (c, encode text ++ bytes) := by
      rw [encode, List.flatMap_cons, List.append_assoc]
      exact next?_utf8EncodeChar ..
    rw [decode]
    split
    · next h => simp [hnext] at h
    · next h =>
      rw [hnext] at h
      cases h
      rw [ih]
      rfl

/-- Returns complete no character that line feeds leave incomplete. -/
theorem next?_withReturns {bytes : Bytes} (h : next? bytes = none) : next? (withReturns bytes) = none := by
  have hread (c : Char) (rest : Bytes) : bytes ≠ encode [c] ++ rest := by
    rintro rfl
    have hnext := next?_utf8EncodeChar c rest
    rw [encode, List.flatMap_cons, List.flatMap_nil, List.append_nil, hnext] at h
    cases h
  cases hnext : next? (withReturns bytes) with
  | none => rfl
  | some found =>
    obtain ⟨c, rest⟩ := found
    have hbytes : encode [c] ++ rest = withReturns bytes := by
      rw [eq_append_of_next? hnext]
      simp [encode]
    by_cases hc : c = '\r' ∨ c = '\n'
    · -- then the bytes start with one of the two, which is a character by itself
      obtain ⟨b, tail, rfl⟩ : ∃ b tail, bytes = b :: tail := by
        refine List.exists_cons_of_ne_nil ?_
        rintro rfl
        cases hnext
      by_cases hb : b = 0x0A
      · exact absurd (by rw [hb]; rfl) (hread '\n' tail)
      · have hfirst : withReturns (b :: tail) = b :: withReturns tail := markBefore_cons_of_ne hb tail
        rw [hfirst] at hbytes
        rcases hc with rfl | rfl
        · exact absurd (by rw [← (List.cons.inj hbytes).1]; rfl) (hread '\r' tail)
        · exact absurd (List.cons.inj hbytes).1.symm hb
    · rw [not_or] at hc
      have hmem (d : Char) (hd : d.toNat < 0x80) (hne : c ≠ d) : Ecma.byte d ∉ encode [c] := fun h =>
        hne (List.mem_singleton.1 ((Ecma.Cursor.byte_mem_encode hd [c]).1 h)).symm
      have hstarts : encode [c] <+: markBefore 0x0D 0x0A bytes := ⟨rest, hbytes⟩
      obtain ⟨tail, htail⟩ := (prefix_markBefore_iff (hmem '\r' (by decide) hc.1)
        (hmem '\n' (by decide) hc.2)).1 hstarts
      exact absurd htail.symm (hread c tail)

/-- Returns are decoded as returns. -/
theorem decode_withReturns (bytes : Bytes) :
    decode (withReturns bytes) = (Text.withReturns (decode bytes).1, withReturns (decode bytes).2) := by
  have hbytes := encode_decode bytes
  have hbad := next?_withReturns (next?_decode bytes)
  generalize (decode bytes).1 = text at hbytes ⊢
  generalize (decode bytes).2 = bad at hbytes hbad ⊢
  subst hbytes
  have hstop : decode (withReturns bad) = ([], withReturns bad) := by
    rw [decode]
    split
    · rfl
    · next h => simp [hbad] at h
  rw [withReturns_append, ← encode_withReturns, decode_encode_append, hstop, List.append_nil]

end Utf8
end ParseGoal
