/-! Positions in a text: lines and columns for people, byte offsets for programs. -/
namespace ParseGoal

/-- A place in a text. -/
structure Position where
  /-- Lines are counted from one, and only a line feed ends one. -/
  line : Nat
  /-- Columns are counted from one, in characters. -/
  column : Nat
  /-- The number of bytes before the place, in UTF-8. -/
  offset : Nat
  deriving DecidableEq

namespace Text

/-- The number of bytes that a text takes in UTF-8. -/
def byteSize : List Char → Nat
  | [] => 0
  | c :: rest => c.utf8Size + byteSize rest

@[simp] theorem byteSize_nil : byteSize [] = 0 := rfl

@[simp] theorem byteSize_cons (c : Char) (text : List Char) :
    byteSize (c :: text) = c.utf8Size + byteSize text := rfl

@[simp] theorem byteSize_append (s t : List Char) : byteSize (s ++ t) = byteSize s + byteSize t := by
  induction s with
  | nil => simp
  | cons c s ih => simp [ih, Nat.add_assoc]

theorem length_le_byteSize (text : List Char) : text.length ≤ byteSize text := by
  induction text with
  | nil => simp
  | cons c text ih =>
    have := c.utf8Size_pos
    simp only [List.length_cons, byteSize_cons]
    omega

@[simp] theorem utf8ByteSize_ofList (text : List Char) :
    (String.ofList text).utf8ByteSize = byteSize text := by
  induction text with
  | nil => simp
  | cons c text ih =>
    rw [← List.singleton_append, String.ofList_append, String.utf8ByteSize_append, ih,
      ← String.singleton_eq_ofList, String.utf8ByteSize_singleton, byteSize_append]
    simp

end Text

namespace Position

/-- The place before the first character. -/
def start : Position := ⟨1, 1, 0⟩

/-- Line and column as they are shown. -/
def text (p : Position) : String := s!"{p.line}:{p.column}"

/-- The line and column reached from a given one by the characters that begin in the next `offset` bytes. -/
def advance (line column : Nat) : (offset : Nat) → List Char → Nat × Nat
  | _, [] => (line, column)
  | 0, _ => (line, column)
  | offset + 1, c :: rest =>
    if c = '\n' then advance (line + 1) 1 (offset + 1 - c.utf8Size) rest
    else advance line (column + 1) (offset + 1 - c.utf8Size) rest

/-- The place of a byte offset in a text. An offset past the end means the end. -/
def ofOffset (text : List Char) (offset : Nat) : Position :=
  let offset := min offset (Text.byteSize text)
  let (line, column) := advance 1 1 offset text
  ⟨line, column, offset⟩

end Position
end ParseGoal
