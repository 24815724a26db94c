import Mathlib.Tactic.SplitIfs
import ParseGoal.Json.Reader
import ParseGoal.Json.Writer
import ParseGoal.Proofs.Text.Digits

/-! The tokens of a value, found again in the text that is written for it. -/
namespace ParseGoal

/-- Every numeral that is written is read back as far as it is that of a natural number. -/
def Numeral.IsNat (n : Numeral) : Prop := ∃ k, n = .ofNat k

namespace Json

mutual

/-- All strings and names are text, and all numbers are natural. -/
def IsPlain : Json → Prop
  | .null => True
  | .bool _ => True
  | .number n => n.IsNat
  | .string text => text.isSome
  | .array items => ArePlain items
  | .object fields => FieldsPlain fields

/-- All items are plain. -/
def ArePlain : List Json → Prop
  | [] => True
  | item :: rest => IsPlain item ∧ ArePlain rest

/-- All names and values are plain. -/
def FieldsPlain : List (Option String × Json) → Prop
  | [] => True
  | (name, value) :: rest => name.isSome ∧ IsPlain value ∧ FieldsPlain rest

end

mutual

/-- The tokens that a value is written with. -/
def tokens : Json → List Token
  | .null => [.null]
  | .bool b => [.bool b]
  | .number n => [.number n]
  | .string text => [.string text]
  | .array [] => [.leftBracket, .rightBracket]
  | .array (item :: rest) => .leftBracket :: (tokens item ++ itemTokens rest ++ [.rightBracket])
  | .object [] => [.leftBrace, .rightBrace]
  | .object ((name, value) :: rest) =>
    .leftBrace :: .string name :: .colon :: (tokens value ++ fieldTokens rest ++ [.rightBrace])

/-- The tokens of the items after the first one. -/
def itemTokens : List Json → List Token
  | [] => []
  | item :: rest => .comma :: (tokens item ++ itemTokens rest)

/-- The tokens of the fields after the first one. -/
def fieldTokens : List (Option String × Json) → List Token
  | [] => []
  | (name, value) :: rest => .comma :: .string name :: .colon :: (tokens value ++ fieldTokens rest)

end

variable {c : Char} {rest : List Char}

theorem tokens?_blank (h : isBlank c = true) : tokens? (c :: rest) = tokens? rest := by
  rw [tokens?, if_pos h]

theorem isBlank_of_punctuation? {token : Token} (h : punctuation? c = some token) :
    isBlank c = false := by
  unfold punctuation? at h
  split at h
  · next hc => rw [hc]; rfl
  split at h
  · next hc => rw [hc]; rfl
  split at h
  · next hc => rw [hc]; rfl
  split at h
  · next hc => rw [hc]; rfl
  split at h
  · next hc => rw [hc]; rfl
  split at h
  · next hc => rw [hc]; rfl
  · cases h

theorem tokens?_punctuation {token : Token} (h : punctuation? c = some token) :
    tokens? (c :: rest) = (tokens? rest).map (token :: ·) := by
  rw [tokens?, isBlank_of_punctuation? h, if_neg (by decide), h]

theorem tokens?_long {token : Token} {after : List Char} (hblank : isBlank c = false)
    (hpunctuation : punctuation? c = none) (h : longToken? c rest = some (token, after)) :
    tokens? (c :: rest) = (tokens? after).map (token :: ·) := by
  rw [tokens?, hblank, if_neg (by decide), hpunctuation]
  dsimp only
  split
  · next hnone => rw [h] at hnone; cases hnone
  · next hsome =>
    rw [h] at hsome
    cases hsome
    rfl

theorem tokens?_blanks {blanks : List Char} (h : ∀ c ∈ blanks, isBlank c = true) :
    tokens? (blanks ++ rest) = tokens? rest := by
  induction blanks with
  | nil => rfl
  | cons c more ih =>
    rw [List.cons_append, tokens?_blank (h c List.mem_cons_self)]
    exact ih fun d hd => h d (List.mem_cons_of_mem c hd)

theorem tokens?_lead (layout : Layout) : tokens? (layout.lead ++ rest) = tokens? rest := by
  refine tokens?_blanks fun c hc => ?_
  cases layout with
  | line => cases hc
  | lines depth =>
    rcases List.mem_cons.1 hc with rfl | hc
    · rfl
    · rw [List.eq_of_mem_replicate hc]
      rfl

theorem tokens?_colon (layout : Layout) :
    tokens? (layout.colon ++ rest) = (tokens? rest).map (.colon :: ·) := by
  cases layout with
  | line => exact tokens?_punctuation rfl
  | lines depth =>
    refine (tokens?_punctuation (c := ':') rfl).trans ?_
    exact congrArg _ (tokens?_blank (c := ' ') rfl)

/-- How a character of a string is read back. -/
def element (c : Char) : Element :=
  if c.toNat < 0x20 ∧ c ≠ '\x08' ∧ c ≠ '\x0c' ∧ c ≠ '\n' ∧ c ≠ '\r' ∧ c ≠ '\t' then .unit c.toNat
  else .char c

theorem hexDigitsValue?_low {n : Nat} (h : n < 0x20) :
    Text.hexDigitsValue? ['0', '0', Text.hexDigit (n / 16), Text.hexDigit (n % 16)] = some n := by
  have hzero : Text.hexValue? '0' = some 0 := rfl
  have hhigh := Text.hexValue?_hexDigit (show n / 16 < 16 by omega)
  have hlow := Text.hexValue?_hexDigit (show n % 16 < 16 by omega)
  have hsum : n / 16 * 16 + n % 16 = n := by omega
  simp [Text.hexDigitsValue?, hzero, hhigh, hlow, hsum]

/-- A backslash and the character that stands for `c` are read back as `c`. -/
theorem elements?_short {mark : Char} (hmark : shortEscape? mark = some c) (hu : mark ≠ 'u') :
    elements? ('\\' :: mark :: rest) = (elements? rest).map fun p => (.char c :: p.1, p.2) := by
  rw [elements?.eq_def]
  dsimp only
  rw [if_neg (by decide), if_pos rfl]
  split
  · next h =>
    rw [List.cons.injEq] at h
    exact absurd h.1 hu
  · next h =>
    cases h
    rw [hmark]
    cases elements? rest <;> rfl
  · next h => cases h

theorem elements?_unit {n : Nat} (h : n < 0x20) :
    elements? (['\\', 'u', '0', '0', Text.hexDigit (n / 16), Text.hexDigit (n % 16)] ++ rest) =
      (elements? rest).map fun p => (.unit n :: p.1, p.2) := by
  rw [elements?.eq_def]
  dsimp only [List.cons_append, List.nil_append]
  rw [if_neg (by decide), if_pos rfl]
  change (Text.hexDigitsValue? _).bind _ = _
  rw [hexDigitsValue?_low h]
  cases elements? rest <;> rfl

theorem elements?_plain (hquote : c ≠ '"') (hbackslash : c ≠ '\\') (hlow : ¬ c.toNat < 0x20) :
    elements? (c :: rest) = (elements? rest).map fun p => (.char c :: p.1, p.2) := by
  rw [elements?.eq_def]
  dsimp only
  rw [if_neg hquote, if_neg hbackslash, if_neg hlow]
  cases elements? rest <;> rfl

theorem elements?_escape (c : Char) (rest : List Char) :
    elements? (escape c ++ rest) = (elements? rest).map fun p => (element c :: p.1, p.2) := by
  unfold escape
  split_ifs with hquote hbackslash hbackspace hfeed hnewline hreturn htab hlow
  · subst hquote
    exact elements?_short (by decide) (by decide)
  · subst hbackslash
    exact elements?_short (by decide) (by decide)
  · subst hbackspace
    exact elements?_short (by decide) (by decide)
  · subst hfeed
    exact elements?_short (by decide) (by decide)
  · subst hnewline
    exact elements?_short (by decide) (by decide)
  · subst hreturn
    exact elements?_short (by decide) (by decide)
  · subst htab
    exact elements?_short (by decide) (by decide)
  · rw [element, if_pos ⟨hlow, hbackspace, hfeed, hnewline, hreturn, htab⟩]
    exact elements?_unit hlow
  · rw [element, if_neg fun h => hlow h.1]
    exact elements?_plain hquote hbackslash hlow

theorem elements?_flatMap_escape (text rest : List Char) :
    elements? (text.flatMap escape ++ '"' :: rest) = some (text.map element, rest) := by
  induction text with
  | nil =>
    rw [List.flatMap_nil, List.nil_append, elements?.eq_def]
    rfl
  | cons c more ih =>
    rw [List.flatMap_cons, List.append_assoc, elements?_escape, ih]
    rfl

/-- A surrogate is never written as an escape, so every element stands for its character. -/
theorem elementsText?_element (text : List Char) : elementsText? (text.map element) = some text := by
  induction text with
  | nil => rfl
  | cons c rest ih =>
    rw [List.map_cons, element]
    split
    · next h =>
      rw [elementsText?.eq_def]
      dsimp only
      rw [if_neg (by omega), unitChar?, if_neg (by omega), ih, Char.ofNat_toNat]
      rfl
    · rw [elementsText?, ih]
      rfl

theorem tokens?_quote (text rest : List Char) : tokens? (quote text ++ rest) =
    (tokens? rest).map (.string (some (String.ofList text)) :: ·) := by
  refine tokens?_long (c := '"') rfl rfl ?_
  rw [longToken?, if_pos rfl]
  change (elements? ((text.flatMap escape ++ ['"']) ++ rest)).bind _ = _
  rw [List.append_assoc]
  change (elements? (text.flatMap escape ++ '"' :: rest)).bind _ = _
  rw [elements?_flatMap_escape, Option.bind_some]
  dsimp only
  rw [elementsText?_element]
  rfl

theorem tokens?_quoteText {text : Option String} (h : text.isSome = true) (rest : List Char) :
    tokens? (quoteText text ++ rest) = (tokens? rest).map (.string text :: ·) := by
  obtain ⟨s, rfl⟩ := Option.isSome_iff_exists.1 h
  refine (tokens?_quote s.toList rest).trans ?_
  rw [String.ofList_toList]

/-- A text that does not carry a numeral on. -/
def EndsNumber (text : List Char) : Prop :=
  Text.StartsWithoutDigit text ∧ ∀ c ∈ text.head?, c ≠ '.' ∧ c ≠ 'e' ∧ c ≠ 'E'

theorem digits?_append {digits : List Char} (hne : digits ≠ [])
    (h : ∀ c ∈ digits, c.isDigit = true) (hrest : Text.StartsWithoutDigit rest) :
    digits? (digits ++ rest) = some (digits, rest) := by
  unfold digits?
  rw [Text.takeWhile_isDigit_append h hrest, Text.dropWhile_isDigit_append h hrest]
  split
  · next hnil => exact absurd rfl hne
  · rfl

theorem whole?_toDigits (n : Nat) (h : Text.StartsWithoutDigit rest) :
    whole? (Nat.toDigits 10 n ++ rest) = some (Nat.toDigits 10 n, rest) := by
  have hdigits := digits?_append Nat.toDigits_ne_nil (fun c => Text.isDigit_of_mem_toDigits (n := n)) h
  unfold whole?
  split
  · next more heq =>
    cases hfront : Nat.toDigits 10 n with
    | nil => exact absurd hfront Nat.toDigits_ne_nil
    | cons c front =>
      rw [hfront, List.cons_append, List.cons.injEq] at heq
      have hzero : n = 0 := Text.toDigits_head (heq.1 ▸ hfront)
      rw [hzero, Nat.toDigits_zero, List.cons.injEq] at hfront
      rw [← hfront.1, ← hfront.2, ← heq.2, ← hfront.2]
      rfl
  · exact hdigits

theorem unsigned?_toDigits (n : Nat) (h : EndsNumber rest) :
    unsigned? false (Nat.toDigits 10 n ++ rest) = some (.ofNat n, rest) := by
  have hfraction : fraction? rest = some (none, rest) := by
    unfold fraction?
    split
    · exact absurd rfl (h.2 '.' rfl).1
    · rfl
  have hexponent : exponent? rest = some (none, rest) := by
    cases rest with
    | nil => rfl
    | cons c more =>
      have hc := (h.2 c rfl).2
      rw [exponent?.eq_def]
      exact if_neg (not_or.2 hc)
  rw [unsigned?, whole?_toDigits n h.1]
  simp only [Option.bind_eq_bind, Option.bind_some, hfraction, hexponent]
  rfl

theorem tokens?_number (n : Nat) (h : EndsNumber rest) :
    tokens? ((Numeral.ofNat n).text ++ rest) = (tokens? rest).map (.number (.ofNat n) :: ·) := by
  have htext : (Numeral.ofNat n).text = Nat.toDigits 10 n := by simp [Numeral.text, Numeral.ofNat]
  rw [htext]
  have hunsigned := unsigned?_toDigits n h
  cases hfront : Nat.toDigits 10 n with
  | nil => exact absurd hfront Nat.toDigits_ne_nil
  | cons c front =>
    rw [hfront] at hunsigned
    have hc : c.isDigit = true :=
      Text.isDigit_of_mem_toDigits (n := n) (hfront ▸ List.mem_cons_self)
    have hne : ∀ d, d.isDigit = false → c ≠ d := by
      rintro d hd rfl
      rw [hc] at hd
      cases hd
    refine tokens?_long ?_ ?_ ?_
    · simp [isBlank, hne]
    · simp [punctuation?, hne]
    · rw [longToken?, if_neg (hne _ rfl), if_neg (hne _ rfl), if_pos hc]
      change (unsigned? false (c :: front ++ rest)).bind _ = _
      rw [hunsigned]
      rfl

end Json
end ParseGoal
