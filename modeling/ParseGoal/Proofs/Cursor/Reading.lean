import ParseGoal.Ecma.Cursor
import ParseGoal.Proofs.Ecma.Cut
import ParseGoal.Proofs.Text.Utf8

/-!
The bytes at a cursor, in view of the characters there. A byte of ASCII stands for its character
and for nothing else: no byte of any other character is in ASCII.
-/
namespace ParseGoal.Ecma.Cursor

/-! Bytes of one character. -/

theorem encode_cons (c : Char) (rest : List Char) :
    Utf8.encode (c :: rest) = String.utf8EncodeChar c ++ Utf8.encode rest := rfl

theorem utf8EncodeChar_ascii {c : Char} (h : c.toNat < 0x80) : String.utf8EncodeChar c = [byte c] := by
  have hval : c.val.toNat = c.toNat := rfl
  rw [String.utf8EncodeChar, hval, if_pos (by omega)]
  rfl

theorem utf8Size_ascii {c : Char} (h : c.toNat < 0x80) : c.utf8Size = 1 := by
  rw [← String.length_utf8EncodeChar, utf8EncodeChar_ascii h]
  rfl

theorem toNat_byte {c : Char} (h : c.toNat < 0x80) : (byte c).toNat = c.toNat := by
  rw [byte, Nat.toUInt8, UInt8.toNat_ofNat']
  omega

theorem byte_lt {c : Char} (h : c.toNat < 0x80) : byte c < 0x80 := by
  rw [UInt8.lt_iff_toNat_lt, toNat_byte h]
  exact h

theorem byte_inj {c d : Char} (hc : c.toNat < 0x80) (hd : d.toNat < 0x80) : byte c = byte d ↔ c = d := by
  refine ⟨fun h => ?_, fun h => h ▸ rfl⟩
  have hnat := congrArg UInt8.toNat h
  rw [toNat_byte hc, toNat_byte hd] at hnat
  exact Char.toNat_inj.1 hnat

theorem ofNat_byte {c : Char} (h : c.toNat < 0x80) : Char.ofNat (byte c).toNat = c := by
  rw [toNat_byte h, Char.ofNat_toNat]

/-- A character above ASCII is a byte that starts it and more, all above ASCII. -/
theorem utf8EncodeChar_wide {c : Char} (h : 0x80 ≤ c.toNat) : ∃ x more,
    String.utf8EncodeChar c = x :: more ∧ 0xC0 ≤ x ∧ ∀ y ∈ more, 0x80 ≤ y := by
  have hmax : c.toNat < 0x110000 := by
    rcases c.valid with h | ⟨-, h⟩
    · exact Nat.lt_trans h (by decide)
    · exact h
  have hval : c.val.toNat = c.toNat := rfl
  have hle {k n : Nat} (hk : k < 256) (hn : n < 256) (hkn : k ≤ n) : UInt8.ofNat k ≤ UInt8.ofNat n := by
    rw [UInt8.le_iff_toNat_le, UInt8.toNat_ofNat', UInt8.toNat_ofNat', Nat.mod_eq_of_lt hk,
      Nat.mod_eq_of_lt hn]
    exact hkn
  unfold String.utf8EncodeChar
  rw [hval]
  generalize c.toNat = n at h hmax
  dsimp only
  split_ifs with h1 h2 h3
  · omega
  · refine ⟨_, _, rfl, hle (k := 0xC0) (by decide) (by omega) (by omega), ?_⟩
    simp only [List.mem_cons, List.not_mem_nil, or_false, forall_eq]
    exact hle (k := 0x80) (by decide) (by omega) (by omega)
  · refine ⟨_, _, rfl, hle (k := 0xC0) (by decide) (by omega) (by omega), ?_⟩
    simp only [List.mem_cons, List.not_mem_nil, or_false, forall_eq_or_imp, forall_eq]
    exact ⟨hle (k := 0x80) (by decide) (by omega) (by omega), hle (k := 0x80) (by decide) (by omega) (by omega)⟩
  · refine ⟨_, _, rfl, hle (k := 0xC0) (by decide) (by omega) (by omega), ?_⟩
    simp only [List.mem_cons, List.not_mem_nil, or_false, forall_eq_or_imp, forall_eq]
    exact ⟨hle (k := 0x80) (by decide) (by omega) (by omega), hle (k := 0x80) (by decide) (by omega) (by omega),
      hle (k := 0x80) (by decide) (by omega) (by omega)⟩

theorem le_of_mem_utf8EncodeChar {c : Char} (h : 0x80 ≤ c.toNat) :
    ∀ x ∈ String.utf8EncodeChar c, 0x80 ≤ x := by
  obtain ⟨x, more, heq, hx, hmore⟩ := utf8EncodeChar_wide h
  rw [heq, List.forall_mem_cons]
  exact ⟨UInt8.le_trans (by decide) hx, hmore⟩

/-- The first byte of a character starts one. -/
theorem head_utf8EncodeChar (c : Char) : ∃ x more, String.utf8EncodeChar c = x :: more ∧
    (x < 0x80 ∨ 0xC0 ≤ x) := by
  by_cases h : c.toNat < 0x80
  · exact ⟨_, _, utf8EncodeChar_ascii h, .inl (byte_lt h)⟩
  · obtain ⟨x, more, heq, hx, -⟩ := utf8EncodeChar_wide (Nat.le_of_not_lt h)
    exact ⟨x, more, heq, .inr hx⟩

theorem ne_of_wide {c d : Char} (hc : 0x80 ≤ c.toNat) (hd : d.toNat < 0x80) : c ≠ d := by
  rintro rfl
  exact absurd hd (Nat.not_lt.2 hc)

/-! Bytes of a text. -/

theorem byte_mem_encode {d : Char} (hd : d.toNat < 0x80) (text : List Char) :
    byte d ∈ Utf8.encode text ↔ d ∈ text := by
  induction text with
  | nil => simp [Utf8.encode]
  | cons c text ih =>
    have hmem : byte d ∈ String.utf8EncodeChar c ↔ d = c := by
      by_cases hc : c.toNat < 0x80
      · rw [utf8EncodeChar_ascii hc, List.mem_singleton, byte_inj hd hc]
      · refine ⟨fun h => absurd (le_of_mem_utf8EncodeChar (Nat.le_of_not_lt hc) _ h) ?_, ?_⟩
        · exact UInt8.not_le.2 (byte_lt hd)
        · rintro rfl
          exact absurd hd hc
    rw [encode_cons, List.mem_append, hmem, ih, List.mem_cons]

/-- A character in ASCII is in a text as often as its byte is. -/
theorem count_encode {d : Char} (hd : d.toNat < 0x80) (text : List Char) :
    (Utf8.encode text).count (byte d) = text.count d := by
  induction text with
  | nil => rfl
  | cons c text ih =>
    rw [encode_cons, List.count_append, ih, List.count_cons, Nat.add_comm]
    congr 1
    by_cases hc : c.toNat < 0x80
    · rw [utf8EncodeChar_ascii hc, List.count_singleton]
      simp [byte_inj hc hd]
    · have hwide := Nat.le_of_not_lt hc
      rw [List.count_eq_zero.2 fun h => UInt8.not_le.2 (byte_lt hd) (le_of_mem_utf8EncodeChar hwide _ h)]
      simp [ne_of_wide hwide hd]

/-- The first byte of a text. -/
def firstByte (text : List Char) : Option UInt8 := (Utf8.encode text).head?

theorem firstByte_ascii {c : Char} (h : c.toNat < 0x80) (rest : List Char) :
    firstByte (c :: rest) = some (byte c) := by
  rw [firstByte, encode_cons, utf8EncodeChar_ascii h]
  rfl

theorem firstByte_wide {c : Char} (h : 0x80 ≤ c.toNat) (rest : List Char) :
    ∃ x, firstByte (c :: rest) = some x ∧ 0xC0 ≤ x := by
  obtain ⟨x, more, heq, hx, -⟩ := utf8EncodeChar_wide h
  exact ⟨x, by rw [firstByte, encode_cons, heq]; rfl, hx⟩

/-- The first byte is that of some character exactly if the first character is that one. -/
theorem firstByte_eq {d : Char} (hd : d.toNat < 0x80) (text : List Char) :
    firstByte text = some (byte d) ↔ text.head? = some d := by
  cases text with
  | nil => simp [firstByte, Utf8.encode]
  | cons c rest =>
    by_cases hc : c.toNat < 0x80
    · rw [firstByte_ascii hc, List.head?_cons, Option.some_inj, Option.some_inj, byte_inj hc hd]
    · obtain ⟨x, hx, hle⟩ := firstByte_wide (Nat.le_of_not_lt hc) rest
      rw [hx, List.head?_cons, Option.some_inj, Option.some_inj]
      constructor
      · rintro rfl
        exact absurd (byte_lt hd) (UInt8.not_lt.2 (UInt8.le_trans (by decide) hle))
      · rintro rfl
        exact absurd hd hc

/-- A class of bytes is a class of characters in ASCII. -/
structure IsClass (p : UInt8 → Bool) (q : Char → Bool) : Prop where
  apply_byte : ∀ {c : Char}, c.toNat < 0x80 → p (byte c) = q c
  apply_wide : ∀ {x : UInt8}, 0x80 ≤ x → p x = false
  chars : ∀ c, q c = true → c.toNat < 0x80

namespace IsClass

variable {p : UInt8 → Bool} {q : Char → Bool} (h : IsClass p q)

include h

theorem not_wide {c : Char} (hc : 0x80 ≤ c.toNat) : q c = false := by
  rw [Bool.eq_false_iff]
  exact fun hq => absurd (h.chars c hq) (Nat.not_lt.2 hc)

theorem firstByte_any (text : List Char) : (firstByte text).any p = text.head?.any q := by
  cases text with
  | nil => rfl
  | cons c rest =>
    by_cases hc : c.toNat < 0x80
    · rw [firstByte_ascii hc]
      exact h.apply_byte hc
    · obtain ⟨x, hx, hle⟩ := firstByte_wide (Nat.le_of_not_lt hc) rest
      rw [hx, List.head?_cons, Option.any_some, Option.any_some, h.not_wide (Nat.le_of_not_lt hc)]
      exact h.apply_wide (UInt8.le_trans (by decide) hle)

variable {p' : UInt8 → Bool} {q' : Char → Bool}

theorem or (h' : IsClass p' q') : IsClass (fun x => p x || p' x) (fun c => q c || q' c) where
  apply_byte hc := by rw [h.apply_byte hc, h'.apply_byte hc]
  apply_wide hx := by rw [h.apply_wide hx, h'.apply_wide hx, Bool.or_false]
  chars c hc := (Bool.or_eq_true_iff.1 hc).elim (h.chars c) (h'.chars c)

theorem diff (h' : IsClass p' q') : IsClass (fun x => p x && !p' x) (fun c => q c && !q' c) where
  apply_byte hc := by rw [h.apply_byte hc, h'.apply_byte hc]
  apply_wide hx := by rw [h.apply_wide hx, Bool.false_and]
  chars c hc := h.chars c (Bool.and_eq_true_iff.1 hc).1

end IsClass

theorem isClass_byte {d : Char} (hd : d.toNat < 0x80) : IsClass (· == byte d) (· == d) where
  apply_byte hc := by rw [Bool.eq_iff_iff, beq_iff_eq, beq_iff_eq, byte_inj hc hd]
  apply_wide hx := beq_false_of_ne fun h => absurd (byte_lt hd) (UInt8.not_lt.2 (h ▸ hx))
  chars _ hc := beq_iff_eq.1 hc ▸ hd

theorem isClass_range {a z : Char} (ha : a.toNat < 0x80) (hz : z.toNat < 0x80) :
    IsClass (fun x => byte a ≤ x && x ≤ byte z) (fun c => a.val ≤ c.val && c.val ≤ z.val) where
  apply_byte hc := by
    have hle {c d : Char} (hc : c.toNat < 0x80) (hd : d.toNat < 0x80) : byte c ≤ byte d ↔ c.val ≤ d.val := by
      rw [UInt8.le_iff_toNat_le, toNat_byte hc, toNat_byte hd]
      rfl
    simp only [hle ha hc, hle hc hz]
  apply_wide hx := by
    rw [decide_eq_false (UInt8.not_le.2 (UInt8.lt_of_lt_of_le (byte_lt hz) hx)), Bool.and_false]
  chars c hc := by
    have hle : c.toNat ≤ z.toNat := of_decide_eq_true (Bool.and_eq_true_iff.1 hc).2
    exact Nat.lt_of_le_of_lt hle hz

theorem isDigit_isClass : IsClass isDigit Char.isDigit := isClass_range (by decide) (by decide)

theorem isLetter_isClass : IsClass isLetter Char.isAlpha := by
  have hlower : IsClass (fun x => byte 'a' ≤ x && x ≤ byte 'z') Char.isLower :=
    isClass_range (by decide) (by decide)
  have hupper : IsClass (fun x => byte 'A' ≤ x && x ≤ byte 'Z') fun c => 'A'.val ≤ c.val && c.val ≤ 'Z'.val :=
    isClass_range (by decide) (by decide)
  have halpha : Char.isAlpha = fun c => c.isLower || ('A'.val ≤ c.val && c.val ≤ 'Z'.val) := by
    funext c
    rw [← Bool.decide_and, Bool.or_comm]
    rfl
  rw [halpha]
  exact hlower.or hupper

theorem startsWord_isClass : IsClass startsWord isIdentifierStart :=
  ((isLetter_isClass.or (isClass_byte (by decide))).or (isClass_byte (by decide))).or
    (isClass_byte (by decide))

theorem continuesWord_isClass : IsClass continuesWord isIdentifierPart :=
  startsWord_isClass.or isDigit_isClass

/-- What numbers are made of, but for signs. -/
theorem number_isClass : IsClass (fun x => isLetter x || isDigit x || x == byte '_' || x == byte '.')
    (fun c => c.isAlphanum || c == '_' || c == '.') :=
  ((isLetter_isClass.or isDigit_isClass).or (isClass_byte (by decide))).or (isClass_byte (by decide))

theorem isBlank_isClass : IsClass isBlank isInlineBlank :=
  ((((isClass_byte (by decide)).or (isClass_byte (by decide))).or (isClass_byte (by decide))).or
    (isClass_byte (by decide))).or (isClass_byte (by decide))

/-- One of the bytes of a character: in ASCII it is the only one, and otherwise it is above ASCII. -/
def IsByteOf (x : UInt8) (c : Char) : Prop :=
  c.toNat < 0x80 ∧ x = byte c ∨ 0x80 ≤ c.toNat ∧ 0x80 ≤ x

namespace IsByteOf

variable {x : UInt8} {c : Char} (h : IsByteOf x c)

include h

theorem eq_byte {d : Char} (hd : d.toNat < 0x80) : x = byte d ↔ c = d := by
  obtain ⟨hc, rfl⟩ | ⟨hc, hx⟩ := h
  · exact byte_inj hc hd
  · constructor
    · rintro rfl
      exact absurd (byte_lt hd) (UInt8.not_lt.2 hx)
    · rintro rfl
      exact absurd hd (Nat.not_lt.2 hc)

theorem apply_eq {p : UInt8 → Bool} {q : Char → Bool} (hclass : IsClass p q) : p x = q c := by
  obtain ⟨hc, rfl⟩ | ⟨hc, hx⟩ := h
  · exact hclass.apply_byte hc
  · rw [hclass.apply_wide hx, hclass.not_wide hc]

theorem le_iff : 0x80 ≤ x ↔ 0x80 ≤ c.toNat := by
  obtain ⟨hc, rfl⟩ | ⟨hc, hx⟩ := h
  · exact ⟨fun hx => absurd (byte_lt hc) (UInt8.not_lt.2 hx), fun hle => absurd hc (Nat.not_lt.2 hle)⟩
  · exact ⟨fun _ => hc, fun _ => hx⟩

theorem ofNat_eq (hc : c.toNat < 0x80) : Char.ofNat x.toNat = c := by
  obtain ⟨-, rfl⟩ | ⟨hwide, -⟩ := h
  · exact ofNat_byte hc
  · exact absurd hc (Nat.not_lt.2 hwide)

end IsByteOf

theorem isByteOf_of_mem {c : Char} {x : UInt8} (h : x ∈ String.utf8EncodeChar c) : IsByteOf x c := by
  by_cases hc : c.toNat < 0x80
  · rw [utf8EncodeChar_ascii hc, List.mem_singleton] at h
    exact .inl ⟨hc, h⟩
  · have hc := Nat.le_of_not_lt hc
    exact .inr ⟨hc, le_of_mem_utf8EncodeChar hc x h⟩

/-- At a byte of a text, `rest` follows. -/
def Reads (b : Bytes) (pos : Nat) (rest : List Char) : Prop :=
  ∃ pre, b = Utf8.encode (pre ++ rest) ∧ pos = Text.byteSize pre

namespace Reads

variable {b : Bytes} {pos : Nat} {c : Char} {text rest : List Char}

theorem start (text : List Char) : Reads (Utf8.encode text) 0 text := ⟨[], rfl, rfl⟩

theorem drop (h : Reads b pos rest) : b.drop pos = Utf8.encode rest := by
  obtain ⟨pre, rfl, rfl⟩ := h
  rw [Utf8.encode_append, ← Utf8.length_encode, List.drop_left]

theorem length_eq (h : Reads b pos rest) : b.length = pos + Text.byteSize rest := by
  obtain ⟨pre, rfl, rfl⟩ := h
  rw [Utf8.length_encode, Text.byteSize_append]

theorem getElem? (h : Reads b pos rest) (k : Nat) : b[pos + k]? = (Utf8.encode rest)[k]? := by
  rw [← h.drop, List.getElem?_drop]

theorem get (h : Reads b pos rest) : b[pos]? = firstByte rest := by
  have := h.getElem? 0
  rwa [Nat.add_zero, ← List.head?_eq_getElem?] at this

theorem append (h : Reads b pos (text ++ rest)) : Reads b (pos + Text.byteSize text) rest := by
  obtain ⟨pre, rfl, rfl⟩ := h
  exact ⟨pre ++ text, by rw [List.append_assoc], (Text.byteSize_append ..).symm⟩

theorem cons (h : Reads b pos (c :: rest)) : Reads b (pos + c.utf8Size) rest := by
  have hone : Reads b pos ([c] ++ rest) := h
  exact hone.append

theorem next (h : Reads b pos (c :: rest)) (hc : c.toNat < 0x80) : Reads b (pos + 1) rest :=
  utf8Size_ascii hc ▸ h.cons

theorem lt_length (h : Reads b pos (c :: rest)) : pos < b.length := by
  have hpos := c.utf8Size_pos
  rw [h.length_eq, Text.byteSize_cons]
  omega

theorem not_lt_length (h : Reads b pos []) : ¬ pos < b.length := by
  rw [h.length_eq, Text.byteSize_nil]
  omega

theorem slice?_append (h : Reads b pos (text ++ rest)) :
    slice? b pos (pos + Text.byteSize text) = some (Utf8.encode text) := by
  have hlength := h.length_eq
  rw [Text.byteSize_append] at hlength
  rw [slice?, if_pos (by omega), List.drop_take, h.drop, Utf8.encode_append, Nat.add_sub_cancel_left,
    ← Utf8.length_encode, List.take_left]

theorem slice?_tail (h : Reads b pos rest) : slice? b pos b.length = some (Utf8.encode rest) := by
  have hall : Reads b pos (rest ++ []) := (List.append_nil rest).symm ▸ h
  have hslice := hall.slice?_append
  rwa [← h.length_eq] at hslice

theorem isBoundary (h : Reads b pos rest) : Cursor.isBoundary b pos = true := by
  rw [Cursor.isBoundary, h.get]
  cases rest with
  | nil => simp [firstByte, Utf8.encode, h.length_eq]
  | cons c rest =>
    obtain ⟨x, more, heq, hx⟩ := head_utf8EncodeChar c
    rw [firstByte, encode_cons, heq]
    simpa using hx

theorem charAt? (h : Reads b pos (c :: rest)) : Cursor.charAt? b pos = some c := by
  rw [Cursor.charAt?, if_pos h.isBoundary, h.drop, encode_cons, Utf8.next?_utf8EncodeChar]
  rfl

theorem textSlice? (h : Reads b pos (text ++ rest)) :
    Cursor.textSlice? b pos (pos + Text.byteSize text) = some text := by
  rw [Cursor.textSlice?, if_pos ⟨h.isBoundary, h.append.isBoundary⟩, h.slice?_append, Option.bind_some,
    Utf8.decode?_encode]

/-- The bytes of a character. -/
theorem getElem?_byteOf (h : Reads b pos (c :: rest)) {k : Nat} (hk : k < c.utf8Size) :
    ∃ x, b[pos + k]? = some x ∧ IsByteOf x c := by
  have hlength : k < (String.utf8EncodeChar c).length := by rwa [String.length_utf8EncodeChar]
  refine ⟨(String.utf8EncodeChar c)[k], ?_, isByteOf_of_mem (List.getElem_mem _)⟩
  rw [h.getElem?, encode_cons, List.getElem?_append_left hlength, List.getElem?_eq_getElem hlength]

theorem getElem?_head (h : Reads b pos (c :: rest)) : ∃ x, b[pos]? = some x ∧ IsByteOf x c :=
  h.getElem?_byteOf c.utf8Size_pos

theorem getElem?_end (h : Reads b pos []) : b[pos]? = none := h.get

/-- The byte behind a character in ASCII. -/
theorem getElem?_next (h : Reads b pos (c :: rest)) (hc : c.toNat < 0x80) {d : Char}
    (hd : d.toNat < 0x80) : b[pos + 1]? = some (byte d) ↔ rest.head? = some d := by
  rw [(h.next hc).get, firstByte_eq hd]

theorem any_next (h : Reads b pos (c :: rest)) (hc : c.toNat < 0x80) {p : UInt8 → Bool}
    {q : Char → Bool} (hclass : IsClass p q) : b[pos + 1]?.any p = rest.head?.any q := by
  rw [(h.next hc).get, hclass.firstByte_any]

/-- What goes on past all bytes of a character goes on past the character, from inside it too. -/
private theorem pass_from {α : Type} {f : Nat → α} (h : Reads b pos (c :: rest))
    (hf : ∀ i x, b[i]? = some x → IsByteOf x c → f i = f (i + 1)) {k : Nat} (hk : k ≤ c.utf8Size) :
    f (pos + k) = f (pos + c.utf8Size) := by
  induction hd : c.utf8Size - k generalizing k with
  | zero =>
    obtain rfl : k = c.utf8Size := by omega
    rfl
  | succ d ih =>
    obtain ⟨x, hx, hbyte⟩ := h.getElem?_byteOf (k := k) (by omega)
    rw [hf _ x hx hbyte]
    exact ih (k := k + 1) (by omega) (by omega)

theorem pass {α : Type} {f : Nat → α} (h : Reads b pos (c :: rest))
    (hf : ∀ i x, b[i]? = some x → IsByteOf x c → f i = f (i + 1)) : f pos = f (pos + c.utf8Size) :=
  h.pass_from hf (Nat.zero_le _)

/-- Behind the first byte of any character, what goes on past bytes above ASCII comes to its end. -/
theorem pass_escaped {α : Type} {f : Nat → α} (h : Reads b pos (c :: rest))
    (hf : ∀ i x, b[i]? = some x → IsByteOf x c → 0x80 ≤ c.toNat → f i = f (i + 1)) :
    f (pos + 1) = f (pos + c.utf8Size) := by
  by_cases hc : c.toNat < 0x80
  · rw [utf8Size_ascii hc]
  · exact h.pass_from (fun i x hx hbyte => hf i x hx hbyte (Nat.le_of_not_lt hc)) c.utf8Size_pos

end Reads
end ParseGoal.Ecma.Cursor
