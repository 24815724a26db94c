import ParseGoal.Json

/-! Reading JSON: the text falls into tokens, and a stack of open containers takes them in. -/
namespace ParseGoal.Json

/-- The words of JSON. -/
inductive Token where
  | leftBrace
  | rightBrace
  | leftBracket
  | rightBracket
  | comma
  | colon
  | null
  | bool (b : Bool)
  | number (n : Numeral)
  | string (text : Option String)
  deriving DecidableEq

/-- One character or escape of a string. -/
inductive Element where
  | char (c : Char)
  /-- A UTF-16 unit, written with four hexadecimal digits. -/
  | unit (n : Nat)
  deriving DecidableEq

/-- What a backslash and this character stand for. -/
def shortEscape? (c : Char) : Option Char :=
  if c = '"' ∨ c = '\\' ∨ c = '/' then some c
  else if c = 'b' then some '\x08'
  else if c = 'f' then some '\x0c'
  else if c = 'n' then some '\n'
  else if c = 'r' then some '\r'
  else if c = 't' then some '\t'
  else none

/-- The elements of a string after its opening quote, and the text after its closing quote. -/
def elements? : List Char → Option (List Element × List Char)
  | [] => none
  | c :: rest =>
    if c = '"' then some ([], rest)
    else if c = '\\' then
      match rest with
      | 'u' :: a :: b :: c :: d :: rest => do
        let n ← Text.hexDigitsValue? [a, b, c, d]
        let (more, after) ← elements? rest
        return (.unit n :: more, after)
      | e :: rest => do
        let c ← shortEscape? e
        let (more, after) ← elements? rest
        return (.char c :: more, after)
      | [] => none
    else if c.toNat < 0x20 then none
    else do
      let (more, after) ← elements? rest
      return (.char c :: more, after)

/-- The character of a UTF-16 unit that is no surrogate. -/
def unitChar? (n : Nat) : Option Char :=
  if 0xD800 ≤ n ∧ n ≤ 0xDFFF then none else some (Char.ofNat n)

/-- The character of two units, the first of them a high surrogate. -/
def pairChar? (high low : Nat) : Option Char :=
  if 0xDC00 ≤ low ∧ low ≤ 0xDFFF then
    some (Char.ofNat (0x10000 + (high - 0xD800) * 0x400 + (low - 0xDC00)))
  else none

/-- The text of some elements, unless a surrogate stands alone. -/
def elementsText? : List Element → Option (List Char)
  | [] => some []
  | .char c :: rest => (elementsText? rest).map (c :: ·)
  | .unit n :: rest =>
    if 0xD800 ≤ n ∧ n ≤ 0xDBFF then
      match rest with
      | .unit low :: rest => do
        let c ← pairChar? n low
        (elementsText? rest).map (c :: ·)
      | _ => none
    else do
      let c ← unitChar? n
      (elementsText? rest).map (c :: ·)

/-- A run of digits that is not empty, and what follows it. -/
def digits? (text : List Char) : Option (List Char × List Char) :=
  match text.takeWhile Char.isDigit with
  | [] => none
  | digits => some (digits, text.dropWhile Char.isDigit)

/-- The digits before the point: a zero stands alone. -/
def whole? : List Char → Option (List Char × List Char)
  | '0' :: rest => some (['0'], rest)
  | text => digits? text

/-- The point and the digits after it, if there are any. -/
def fraction? : List Char → Option (Option (List Char) × List Char)
  | '.' :: rest => do
    let (digits, rest) ← digits? rest
    return (some digits, rest)
  | text => some (none, text)

/-- The digits of an exponent, after its sign. -/
def exponentDigits? (negative : Bool) (text : List Char) :
    Option (Option (Bool × List Char) × List Char) := do
  let (digits, rest) ← digits? text
  return (some (negative, digits), rest)

/-- The exponent, if there is one. -/
def exponent? : List Char → Option (Option (Bool × List Char) × List Char)
  | c :: rest =>
    if c = 'e' ∨ c = 'E' then
      match rest with
      | '+' :: rest => exponentDigits? false rest
      | '-' :: rest => exponentDigits? true rest
      | rest => exponentDigits? false rest
    else some (none, c :: rest)
  | [] => some (none, [])

/-- A numeral without its sign. -/
def unsigned? (negative : Bool) (text : List Char) : Option (Numeral × List Char) := do
  let (whole, rest) ← whole? text
  let (fraction, rest) ← fraction? rest
  let (exponent, rest) ← exponent? rest
  return (⟨negative, whole, fraction, exponent⟩, rest)

/-- The blanks of JSON. -/
def isBlank (c : Char) : Bool := c == ' ' || c == '\t' || c == '\n' || c == '\r'

/-- The token of a character that is one by itself. -/
def punctuation? (c : Char) : Option Token :=
  if c = '{' then some .leftBrace else if c = '}' then some .rightBrace
  else if c = '[' then some .leftBracket else if c = ']' then some .rightBracket
  else if c = ',' then some .comma else if c = ':' then some .colon
  else none

/-- The rest of a text that starts with a given one. -/
def after? : List Char → List Char → Option (List Char)
  | [], text => some text
  | c :: start, d :: text => if c = d then after? start text else none
  | _ :: _, [] => none

/-- The token of a text that starts with `c`, which is neither blank nor punctuation. -/
def longToken? (c : Char) (rest : List Char) : Option (Token × List Char) :=
  if c = '"' then do
    let (elements, rest) ← elements? rest
    return (.string ((elementsText? elements).map String.ofList), rest)
  else if c = '-' then do
    let (n, rest) ← unsigned? true rest
    return (.number n, rest)
  else if c.isDigit then do
    let (n, rest) ← unsigned? false (c :: rest)
    return (.number n, rest)
  else if c = 'n' then (after? "ull".toList rest).map (.null, ·)
  else if c = 't' then (after? "rue".toList rest).map (.bool true, ·)
  else if c = 'f' then (after? "alse".toList rest).map (.bool false, ·)
  else none

/-- What is read into something else leaves the same text. -/
theorem exists_of_read {α β : Type} {found : Option (α × List Char)} {f : α → β} {b : β} {rest : List Char}
    (h : (do let (a, rest) ← found; return (f a, rest)) = some (b, rest)) :
    ∃ a, found = some (a, rest) := by
  obtain ⟨⟨a, _⟩, hfound, heq⟩ := Option.bind_eq_some_iff.1 h
  cases heq
  exact ⟨a, hfound⟩

theorem elements?_length {text rest : List Char} {found : List Element}
    (h : elements? text = some (found, rest)) : rest.length < text.length := by
  induction hn : text.length using Nat.strongRecOn generalizing text found with
  | ind n ih =>
    subst hn
    -- An element takes one character or more of the text.
    have hshorter {text' : List Char} {found' : List Element} (hlength : text'.length < text.length)
        (h : elements? text' = some (found', rest)) : rest.length < text.length :=
      Nat.lt_trans (ih _ hlength h rfl) hlength
    unfold elements? at h
    split at h
    · simp at h
    · split at h
      · simp only [Option.some.injEq, Prod.mk.injEq] at h
        simp [h.2]
      · split at h
        · split at h
          · obtain ⟨_, -, h⟩ := Option.bind_eq_some_iff.1 h
            obtain ⟨_, h⟩ := exists_of_read h
            exact hshorter (by simp only [List.length_cons]; omega) h
          · obtain ⟨_, -, h⟩ := Option.bind_eq_some_iff.1 h
            obtain ⟨_, h⟩ := exists_of_read h
            exact hshorter (by simp only [List.length_cons]; omega) h
          · simp at h
        · split at h
          · simp at h
          · obtain ⟨_, h⟩ := exists_of_read h
            exact hshorter (by simp only [List.length_cons]; omega) h

theorem digits?_length {text digits rest : List Char} (h : digits? text = some (digits, rest)) :
    rest.length < text.length := by
  unfold digits? at h
  split at h
  · simp at h
  · next hne =>
    simp only [Option.some.injEq, Prod.mk.injEq] at h
    have happ := congrArg List.length (List.takeWhile_append_dropWhile (p := Char.isDigit) (l := text))
    have hpos : 0 < (text.takeWhile Char.isDigit).length := by
      cases ht : text.takeWhile Char.isDigit with
      | nil => exact absurd ht hne
      | cons => simp
    rw [List.length_append] at happ
    rw [← h.2]
    omega

theorem whole?_length {text digits rest : List Char} (h : whole? text = some (digits, rest)) :
    rest.length < text.length := by
  unfold whole? at h
  split at h
  · simp only [Option.some.injEq, Prod.mk.injEq] at h
    simp [h.2]
  · exact digits?_length h

theorem fraction?_length {text rest : List Char} {digits : Option (List Char)}
    (h : fraction? text = some (digits, rest)) : rest.length ≤ text.length := by
  unfold fraction? at h
  split at h
  · obtain ⟨_, h⟩ := exists_of_read h
    have := digits?_length h
    simp only [List.length_cons]
    omega
  · simp only [Option.some.injEq, Prod.mk.injEq] at h
    simp [h.2]

theorem exponentDigits?_length {negative : Bool} {text rest : List Char}
    {found : Option (Bool × List Char)}
    (h : exponentDigits? negative text = some (found, rest)) : rest.length < text.length := by
  obtain ⟨_, h⟩ := exists_of_read (f := fun digits => some (negative, digits)) h
  exact digits?_length h

theorem exponent?_length {text rest : List Char} {found : Option (Bool × List Char)}
    (h : exponent? text = some (found, rest)) : rest.length ≤ text.length := by
  unfold exponent? at h
  split at h
  · split at h
    · split at h <;>
        · have := exponentDigits?_length h
          simp only [List.length_cons]
          omega
    · simp only [Option.some.injEq, Prod.mk.injEq] at h
      simp [← h.2]
  · simp only [Option.some.injEq, Prod.mk.injEq] at h
    simp [← h.2]

theorem unsigned?_length {negative : Bool} {text rest : List Char} {n : Numeral}
    (h : unsigned? negative text = some (n, rest)) : rest.length < text.length := by
  simp only [unsigned?, Option.bind_eq_bind, Option.bind_eq_some_iff, Option.pure_def,
    Option.some.injEq, Prod.mk.injEq] at h
  obtain ⟨⟨_, _⟩, hw, ⟨_, _⟩, hf, ⟨_, _⟩, he, -, rfl⟩ := h
  have := whole?_length hw
  have := fraction?_length hf
  have := exponent?_length he
  dsimp only at *
  omega

theorem after?_length {start text rest : List Char} (h : after? start text = some rest) :
    rest.length ≤ text.length := by
  fun_induction after? start text with
  | case1 => simp at h; simp [h]
  | case2 _ _ _ ih => exact Nat.le_succ_of_le (ih h)
  | case3 => simp at h
  | case4 => simp at h

theorem keyword_length {start text rest : List Char} {token found : Token}
    (h : (after? start text).map (token, ·) = some (found, rest)) : rest.length ≤ text.length := by
  obtain ⟨_, h, heq⟩ := Option.map_eq_some_iff.1 h
  cases heq
  exact after?_length h

theorem longToken?_length {c : Char} {text rest : List Char} {token : Token}
    (h : longToken? c text = some (token, rest)) : rest.length < (c :: text).length := by
  rw [List.length_cons, Nat.lt_succ_iff]
  unfold longToken? at h
  split at h
  · obtain ⟨_, h⟩ := exists_of_read (f := fun found => Token.string ((elementsText? found).map String.ofList)) h
    exact Nat.le_of_lt (elements?_length h)
  split at h
  · obtain ⟨_, h⟩ := exists_of_read h
    exact Nat.le_of_lt (unsigned?_length h)
  split at h
  · obtain ⟨_, h⟩ := exists_of_read h
    exact Nat.lt_succ_iff.1 (unsigned?_length h)
  split at h
  · exact keyword_length h
  split at h
  · exact keyword_length h
  split at h
  · exact keyword_length h
  · simp at h

/-- The tokens of a text. -/
def tokens? : List Char → Option (List Token)
  | [] => some []
  | c :: rest =>
    if isBlank c then tokens? rest
    else
      match punctuation? c with
      | some token => (tokens? rest).map (token :: ·)
      | none =>
        match _h : longToken? c rest with
        | none => none
        | some (token, rest) => (tokens? rest).map (token :: ·)
termination_by text => text.length
decreasing_by
  all_goals first
    | exact longToken?_length _h
    | simp

/-- A container that is still open, with what it holds so far, the last first. -/
inductive Container where
  | array (items : List Json)
  /-- An object; `name` is the name of the value that comes next. -/
  | object (fields : List (Option String × Json)) (name : Option String)

/-- What may come next. -/
inductive Expected where
  | value
  /-- A value, or the end of an array that holds nothing yet. -/
  | valueOrEnd
  /-- A name, or the end of an object that holds nothing yet. -/
  | nameOrEnd
  | name
  /-- The colon after a name. -/
  | colon
  /-- A comma, or the end of the innermost container. -/
  | more
  /-- Nothing: the value is whole. -/
  | nothing (value : Json)

/-- A reading in progress: what may come next, and the open containers, the innermost first. -/
structure Reading where
  expected : Expected
  containers : List Container

namespace Reading

/-- A value ends: it goes into the innermost container, or is the whole. -/
def settle (value : Json) : List Container → Reading
  | [] => ⟨.nothing value, []⟩
  | .array items :: outer => ⟨.more, .array (value :: items) :: outer⟩
  | .object fields name :: outer => ⟨.more, .object ((name, value) :: fields) name :: outer⟩

/-- The innermost container ends. -/
def finish (token : Token) : List Container → Option Reading
  | .array items :: outer =>
    if token = .rightBracket then some (settle (.array items.reverse) outer) else none
  | .object fields _ :: outer =>
    if token = .rightBrace then some (settle (.object fields.reverse) outer) else none
  | [] => none

/-- A value begins. -/
def begin (token : Token) (containers : List Container) : Option Reading :=
  match token with
  | .null => some (settle .null containers)
  | .bool b => some (settle (.bool b) containers)
  | .number n => some (settle (.number n) containers)
  | .string text => some (settle (.string text) containers)
  | .leftBracket => some ⟨.valueOrEnd, .array [] :: containers⟩
  | .leftBrace => some ⟨.nameOrEnd, .object [] none :: containers⟩
  | _ => none

/-- A name in the innermost object. -/
def named (token : Token) : List Container → Option Reading
  | .object fields _ :: outer =>
    match token with
    | .string name => some ⟨.colon, .object fields name :: outer⟩
    | _ => none
  | _ => none

/-- Takes in one token. -/
def step (r : Reading) (token : Token) : Option Reading :=
  match r.expected with
  | .value => begin token r.containers
  | .valueOrEnd =>
    if token = .rightBracket then finish token r.containers else begin token r.containers
  | .nameOrEnd =>
    if token = .rightBrace then finish token r.containers else named token r.containers
  | .name => named token r.containers
  | .colon => if token = .colon then some ⟨.value, r.containers⟩ else none
  | .more =>
    if token = .comma then
      match r.containers with
      | .array _ :: _ => some ⟨.value, r.containers⟩
      | .object _ _ :: _ => some ⟨.name, r.containers⟩
      | [] => none
    else finish token r.containers
  | .nothing _ => none

/-- The value that was read, if it is whole. -/
def value? (r : Reading) : Option Json :=
  match r.expected with
  | .nothing value => some value
  | _ => none

end Reading

/-- The value that some tokens make up. -/
def ofTokens? (tokens : List Token) : Option Json :=
  (tokens.foldlM Reading.step ⟨.value, []⟩).bind Reading.value?

/-- The value that a text is, with nothing but blanks around it. -/
def read? (text : List Char) : Option Json := (tokens? text).bind ofTokens?

end ParseGoal.Json
