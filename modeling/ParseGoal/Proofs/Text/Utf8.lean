import Mathlib.Order.Bounds.Defs
import Mathlib.Tactic.SplitIfs
import ParseGoal.Text.Utf8

/-! Decoding gives back every text that was encoded, and takes bytes apart without loss. -/
namespace ParseGoal.Utf8

theorem scalar?_toNat (c : Char) : scalar? c.toNat = some c := by
  have hvalid : c.toNat.isValidChar := c.valid
  rw [scalar?, dif_pos hvalid]
  exact congrArg some (Char.ext (UInt32.toNat.inj (by rfl)))

/-- A continuation byte adds its six bits. -/
private theorem continue?_cons (count sum n : Nat) (rest : Bytes) :
    continue? (count + 1) sum (UInt8.ofNat (n % 64 + 128) :: rest) =
      continue? count (sum * 64 + n % 64) rest := by
  have hbyte : (UInt8.ofNat (n % 64 + 128)).toNat = n % 64 + 128 := by
    rw [UInt8.toNat_ofNat']
    omega
  rw [continue?, hbyte, if_pos (by omega), Nat.add_sub_cancel]

/-- A character is read from its lead and the number that the continuation bytes complete. -/
private theorem next?_cons (payload count least : Nat) {b : UInt8} {c : Char} {bytes rest : Bytes}
    (hlead : lead? b = some (payload, count, least))
    (hcontinue : continue? count payload bytes = some (c.toNat, rest)) (hleast : least ≤ c.toNat) :
    next? (b :: bytes) = some (c, rest) := by
  simp [next?, hlead, hcontinue, Nat.not_lt.2 hleast, scalar?_toNat]

theorem next?_utf8EncodeChar (c : Char) (rest : Bytes) :
    next? (String.utf8EncodeChar c ++ rest) = some (c, rest) := by
  have hmax : c.toNat < 0x110000 := by
    rcases c.valid with h | ⟨-, h⟩
    · exact Nat.lt_trans h (by decide)
    · exact h
  have hbyte : ∀ n, n < 256 → (UInt8.ofNat n).toNat = n := by
    intro n hn
    rw [UInt8.toNat_ofNat']
    exact Nat.mod_eq_of_lt hn
  have hval : c.val.toNat = c.toNat := rfl
  unfold String.utf8EncodeChar
  rw [hval]
  generalize hn : c.toNat = n at hmax
  dsimp only
  split_ifs with h1 h2 h3 <;> simp only [List.cons_append, List.nil_append]
  · refine next?_cons n 0 0 ?_ (by simp [continue?, hn]) (by omega)
    rw [lead?, hbyte n (by omega), if_pos (by omega)]
  · have hsum : n / 64 * 64 + n % 64 = n := by omega
    refine next?_cons (n / 64) 1 0x80 ?_ ?_ (by omega)
    · rw [lead?, hbyte _ (by omega), if_neg (by omega), if_neg (by omega), if_pos (by omega),
        Nat.add_sub_cancel, Nat.mod_eq_of_lt (by omega)]
    · rw [continue?_cons, continue?, hsum, hn]
  · have hsum : (n / 4096 * 64 + n / 64 % 64) * 64 + n % 64 = n := by omega
    refine next?_cons (n / 4096) 2 0x800 ?_ ?_ (by omega)
    · rw [lead?, hbyte _ (by omega), if_neg (by omega), if_neg (by omega), if_neg (by omega),
        if_pos (by omega), Nat.add_sub_cancel, Nat.mod_eq_of_lt (by omega)]
    · rw [continue?_cons, continue?_cons, continue?, hsum, hn]
  · have hsum : ((n / 262144 * 64 + n / 4096 % 64) * 64 + n / 64 % 64) * 64 + n % 64 = n := by omega
    refine next?_cons (n / 262144) 3 0x10000 ?_ ?_ (by omega)
    · rw [lead?, hbyte _ (by omega), if_neg (by omega), if_neg (by omega), if_neg (by omega),
        if_neg (by omega), if_pos (by omega), Nat.add_sub_cancel, Nat.mod_eq_of_lt (by omega)]
    · rw [continue?_cons, continue?_cons, continue?_cons, continue?, hsum, hn]

theorem decode_encode (text : List Char) : decode (encode text) = (text, []) := by
  induction text with
  | nil =>
    unfold decode
    rfl
  | cons c rest ih =>
    have hnext : next? (encode (c :: rest)) = some (c, encode rest) := next?_utf8EncodeChar c _
    unfold decode
    split
    · next h => simp [hnext] at h
    · next h =>
      rw [hnext] at h
      cases h
      rw [ih]

theorem decode?_encode (text : List Char) : decode? (encode text) = some text := by
  rw [decode?, decode_encode]

theorem decode?_ofString (s : String) : decode? (ofString s) = some s.toList := decode?_encode _

theorem toNat_of_scalar? {n : Nat} {c : Char} (h : scalar? n = some c) : c.toNat = n := by
  by_cases hvalid : n.isValidChar
  · rw [scalar?, dif_pos hvalid] at h
    obtain rfl := Option.some.inj h
    rfl
  · rw [scalar?, dif_neg hvalid] at h
    cases h

private theorem exists_of_continue? {count sum n : Nat} {bytes rest : Bytes}
    (h : continue? (count + 1) sum bytes = some (n, rest)) : ∃ b tail, bytes = b :: tail ∧
      0x80 ≤ b.toNat ∧ b.toNat < 0xC0 ∧
      continue? count (sum * 64 + (b.toNat - 0x80)) tail = some (n, rest) := by
  cases bytes with
  | nil => cases h
  | cons b tail =>
    rw [continue?] at h
    split at h
    · next hb => exact ⟨b, tail, rfl, hb.1, hb.2, h⟩
    · cases h

private theorem eq_of_continue? {sum n : Nat} {bytes rest : Bytes} (h : continue? 0 sum bytes = some (n, rest)) :
    n = sum ∧ bytes = rest := by
  obtain ⟨rfl, rfl⟩ := Prod.mk.inj (Option.some.inj h)
  exact ⟨rfl, rfl⟩

/-- A character that a lead and its continuation complete is written with just these bytes. -/
private theorem eq_append_of_lead? {payload count least : Nat} {b : UInt8} {c : Char} {bytes rest : Bytes}
    (hlead : lead? b = some (payload, count, least))
    (hn : continue? count payload bytes = some (c.toNat, rest)) (hleast : least ≤ c.toNat) :
    b :: bytes = String.utf8EncodeChar c ++ rest := by
  have hval : c.val.toNat = c.toNat := rfl
  have hbyte {x : UInt8} {k : Nat} (hk : x.toNat = k) : x = UInt8.ofNat k := hk ▸ UInt8.ofNat_toNat.symm
  rw [String.utf8EncodeChar, hval]
  generalize c.toNat = n at hn hleast
  rw [lead?] at hlead
  split_ifs at hlead with h1 h2 h3 h4 h5
  · obtain ⟨rfl, rfl, rfl⟩ : b.toNat = payload ∧ 0 = count ∧ 0 = least := by simpa using hlead
    obtain ⟨hsum, rfl⟩ := eq_of_continue? hn
    have hone : n ≤ 127 := by omega
    rw [if_pos hone, hbyte hsum.symm]
    rfl
  · obtain ⟨rfl, rfl, rfl⟩ : b.toNat - 0xC0 = payload ∧ 1 = count ∧ 0x80 = least := by simpa using hlead
    obtain ⟨x, tail, rfl, hx, hx', hn⟩ := exists_of_continue? hn
    obtain ⟨hsum, rfl⟩ := eq_of_continue? hn
    have hone : ¬ n ≤ 127 := by omega
    have htwo : n ≤ 2047 := by omega
    have hb : b.toNat = n / 64 % 32 + 192 := by omega
    have hx : x.toNat = n % 64 + 128 := by omega
    rw [if_neg hone, if_pos htwo, ← hbyte hb, ← hbyte hx]
    rfl
  · obtain ⟨rfl, rfl, rfl⟩ : b.toNat - 0xE0 = payload ∧ 2 = count ∧ 0x800 = least := by simpa using hlead
    obtain ⟨x, tail, rfl, hx, hx', hn⟩ := exists_of_continue? hn
    obtain ⟨y, tail, rfl, hy, hy', hn⟩ := exists_of_continue? hn
    obtain ⟨hsum, rfl⟩ := eq_of_continue? hn
    have hone : ¬ n ≤ 127 := by omega
    have htwo : ¬ n ≤ 2047 := by omega
    have hthree : n ≤ 65535 := by omega
    have hb : b.toNat = n / 4096 % 16 + 224 := by omega
    have hx : x.toNat = n / 64 % 64 + 128 := by omega
    have hy : y.toNat = n % 64 + 128 := by omega
    rw [if_neg hone, if_neg htwo, if_pos hthree, ← hbyte hb, ← hbyte hx, ← hbyte hy]
    rfl
  · obtain ⟨rfl, rfl, rfl⟩ : b.toNat - 0xF0 = payload ∧ 3 = count ∧ 0x10000 = least := by simpa using hlead
    obtain ⟨x, tail, rfl, hx, hx', hn⟩ := exists_of_continue? hn
    obtain ⟨y, tail, rfl, hy, hy', hn⟩ := exists_of_continue? hn
    obtain ⟨z, tail, rfl, hz, hz', hn⟩ := exists_of_continue? hn
    obtain ⟨hsum, rfl⟩ := eq_of_continue? hn
    have hone : ¬ n ≤ 127 := by omega
    have htwo : ¬ n ≤ 2047 := by omega
    have hthree : ¬ n ≤ 65535 := by omega
    have hb : b.toNat = n / 262144 % 8 + 240 := by omega
    have hx : x.toNat = n / 4096 % 64 + 128 := by omega
    have hy : y.toNat = n / 64 % 64 + 128 := by omega
    have hz : z.toNat = n % 64 + 128 := by omega
    rw [if_neg hone, if_neg htwo, if_neg hthree, ← hbyte hb, ← hbyte hx, ← hbyte hy, ← hbyte hz]
    rfl

/-- Only the bytes of a character are read as it. -/
theorem eq_append_of_next? {bytes rest : Bytes} {c : Char} (h : next? bytes = some (c, rest)) :
    bytes = String.utf8EncodeChar c ++ rest := by
  cases bytes with
  | nil => cases h
  | cons b bytes =>
    simp only [next?, Option.bind_eq_bind, Option.bind_eq_some_iff] at h
    obtain ⟨⟨payload, count, least⟩, hlead, ⟨n, rest'⟩, hn, h⟩ := h
    dsimp only at h hn
    split at h
    · cases h
    · next hleast =>
      obtain ⟨c', hc, heq⟩ := Option.bind_eq_some_iff.1 h
      obtain ⟨rfl, rfl⟩ := Prod.mk.inj (Option.some.inj heq)
      obtain rfl := toNat_of_scalar? hc
      exact eq_append_of_lead? hlead hn (Nat.le_of_not_lt hleast)

/-- Decoding takes the bytes apart. -/
theorem encode_decode (bytes : Bytes) : encode (decode bytes).1 ++ (decode bytes).2 = bytes := by
  fun_induction decode bytes with
  | case1 bytes h => rfl
  | case2 bytes c rest h text bad heq ih =>
    rw [heq] at ih
    rw [eq_append_of_next? h, ← ih]
    exact List.append_assoc ..

theorem encode_append (text more : List Char) : encode (text ++ more) = encode text ++ encode more :=
  List.flatMap_append

theorem length_encode (text : List Char) : (encode text).length = Text.byteSize text := by
  induction text with
  | nil => rfl
  | cons c text ih =>
    rw [encode, List.flatMap_cons, List.length_append, String.length_utf8EncodeChar, Text.byteSize_cons,
      ← ih]
    rfl

theorem take_encode (text : List Char) (more : Bytes) :
    (encode text ++ more).take (Text.byteSize text) = encode text := by
  rw [← length_encode, List.take_left]

theorem encode_injective {text other : List Char} (h : encode text = encode other) : text = other := by
  have hdecode := congrArg (fun bytes => (decode bytes).1) h
  simpa only [decode_encode] using hdecode

/-- A part of a text is a part of its bytes. -/
theorem infix_encode {part text : List Char} (h : part <:+: text) : encode part <:+: encode text := by
  obtain ⟨before, after, rfl⟩ := h
  exact ⟨encode before, encode after, by rw [encode_append, encode_append]⟩

theorem prefix_encode {part text : List Char} (h : part <+: text) : encode part <+: encode text := by
  obtain ⟨after, rfl⟩ := h
  exact ⟨encode after, (encode_append ..).symm⟩

/-- No character's bytes start those of another, so a beginning in bytes is one in characters. -/
theorem prefix_encode_iff {part text : List Char} : encode part <+: encode text ↔ part <+: text := by
  refine ⟨fun h => ?_, prefix_encode⟩
  induction part generalizing text with
  | nil => exact List.nil_prefix
  | cons d part ih =>
    obtain ⟨after, hafter⟩ := h
    have hd : next? (encode text) = some (d, encode part ++ after) := by
      rw [← hafter, encode, List.flatMap_cons, List.append_assoc]
      exact next?_utf8EncodeChar ..
    cases text with
    | nil => cases hd
    | cons c text =>
      have hc : next? (encode (c :: text)) = some (c, encode text) := next?_utf8EncodeChar ..
      obtain ⟨rfl, hrest⟩ := Prod.mk.inj (Option.some.inj (hc.symm.trans hd))
      exact List.cons_prefix_cons.2 ⟨rfl, ih ⟨after, hrest.symm⟩⟩

theorem next?_decode (bytes : Bytes) : next? (decode bytes).2 = none := by
  fun_induction decode bytes with
  | case1 bytes h => exact h
  | case2 bytes c rest h text bad heq ih => rwa [heq] at ih

/-- Decoding stops behind the longest beginning that is well formed. -/
theorem isGreatest_decode (bytes : Bytes) :
    IsGreatest {n | n ≤ bytes.length ∧ ∃ text, bytes.take n = encode text}
      (Text.byteSize (decode bytes).1) := by
  have hbytes := encode_decode bytes
  have hnext := next?_decode bytes
  generalize (decode bytes).1 = text at hbytes ⊢
  generalize (decode bytes).2 = bad at hbytes hnext
  subst hbytes
  rw [← length_encode]
  refine ⟨⟨by simp, text, List.take_left⟩, ?_⟩
  rintro n ⟨hlength, longer, hlonger⟩
  refine Nat.le_of_not_lt fun hn => ?_
  -- More of the bytes would go on with a character, and there is none.
  obtain ⟨more, rfl⟩ : text <+: longer := by
    rw [← prefix_encode_iff, ← hlonger]
    exact List.prefix_take_iff.2 ⟨List.prefix_append .., by omega⟩
  obtain ⟨after, hafter⟩ : encode (text ++ more) <+: encode text ++ bad := hlonger ▸ List.take_prefix ..
  rw [encode_append, List.append_assoc] at hafter
  have hbad := List.append_cancel_left hafter
  cases more with
  | nil =>
    have hsize := congrArg List.length hlonger
    rw [List.append_nil, List.length_take, Nat.min_eq_left hlength] at hsize
    omega
  | cons c more =>
    have hread : next? bad = some (c, encode more ++ after) := by
      rw [← hbad, encode, List.flatMap_cons, List.append_assoc]
      exact next?_utf8EncodeChar ..
    rw [hnext] at hread
    cases hread

end ParseGoal.Utf8
