import ParseGoal.Text.Position

/-! UTF-8, read strictly and written. -/
namespace ParseGoal

/-- What files hold. -/
abbrev Bytes := List UInt8

namespace Utf8

/-- The character with a given code point, unless it is a surrogate or too large. -/
def scalar? (n : Nat) : Option Char :=
  if h : n.isValidChar then some (Char.ofNatAux n h) else none

/-- What a first byte says: its payload, how many bytes follow it, and the least code point of that length. -/
def lead? (b : UInt8) : Option (Nat × Nat × Nat) :=
  let n := b.toNat
  if n < 0x80 then some (n, 0, 0)
  else if n < 0xC0 then none
  else if n < 0xE0 then some (n - 0xC0, 1, 0x80)
  else if n < 0xF0 then some (n - 0xE0, 2, 0x800)
  else if n < 0xF8 then some (n - 0xF0, 3, 0x10000)
  else none

/-- Adds the payloads of the given number of continuation bytes. -/
def continue? : Nat → Nat → Bytes → Option (Nat × Bytes)
  | 0, sum, rest => some (sum, rest)
  | _ + 1, _, [] => none
  | count + 1, sum, b :: rest =>
    if 0x80 ≤ b.toNat ∧ b.toNat < 0xC0 then continue? count (sum * 64 + (b.toNat - 0x80)) rest
    else none

/-- The first character and the bytes after it. Overlong forms and surrogates are refused. -/
def next? : Bytes → Option (Char × Bytes)
  | [] => none
  | b :: rest => do
    let (payload, count, least) ← lead? b
    let (n, rest) ← continue? count payload rest
    if n < least then none
    else
      let c ← scalar? n
      some (c, rest)

theorem continue?_length {count sum n : Nat} {bytes rest : Bytes}
    (h : continue? count sum bytes = some (n, rest)) : rest.length ≤ bytes.length := by
  induction count generalizing sum bytes with
  | zero => simp only [continue?, Option.some.injEq, Prod.mk.injEq] at h; simp [h.2]
  | succ count ih =>
    cases bytes with
    | nil => simp [continue?] at h
    | cons b bytes =>
      simp only [continue?] at h
      split at h
      · exact Nat.le_succ_of_le (ih h)
      · simp at h

theorem next?_length {bytes rest : Bytes} {c : Char} (h : next? bytes = some (c, rest)) :
    rest.length < bytes.length := by
  cases bytes with
  | nil => simp [next?] at h
  | cons b bytes =>
    simp only [next?, Option.bind_eq_bind, Option.bind_eq_some_iff] at h
    obtain ⟨⟨payload, count, least⟩, -, ⟨n, rest'⟩, hn, h⟩ := h
    simp only at h
    split at h
    · simp at h
    · simp only [Option.bind_eq_some_iff, Option.some.injEq, Prod.mk.injEq] at h
      obtain ⟨_, -, -, rfl⟩ := h
      exact Nat.lt_succ_of_le (continue?_length hn)

/-- The longest well-formed beginning, decoded, and the bytes from the first ill-formed sequence on. -/
def decode (bytes : Bytes) : List Char × Bytes :=
  match _h : next? bytes with
  | none => ([], bytes)
  | some (c, rest) =>
    let (text, bad) := decode rest
    (c :: text, bad)
termination_by bytes.length
decreasing_by exact next?_length _h

/-- The text of bytes that are well formed throughout. -/
def decode? (bytes : Bytes) : Option (List Char) :=
  match decode bytes with
  | (text, []) => some text
  | _ => none

/-- The bytes of a text. -/
def encode (text : List Char) : Bytes := text.flatMap String.utf8EncodeChar

/-- The bytes of a string. -/
def ofString (s : String) : Bytes := encode s.toList

/-- The string of bytes that are well formed throughout. -/
def toString? (bytes : Bytes) : Option String := (decode? bytes).map String.ofList

end Utf8
end ParseGoal
