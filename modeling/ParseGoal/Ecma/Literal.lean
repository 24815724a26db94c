import ParseGoal.Text.Position

/-!
The insides of string, template and regular expression literals, numbers, words and block comments.
Each function splits a text into the part it reads and the rest.
-/
namespace ParseGoal.Ecma

/-- Letters that words may start with, in ASCII; a backslash starts an escaped letter. -/
def isIdentifierStart (c : Char) : Bool := c.isAlpha || c == '_' || c == '$' || c == '\\'

/-- Letters and digits that words may go on with, in ASCII. -/
def isIdentifierPart (c : Char) : Bool := isIdentifierStart c || c.isDigit

/-- One element of a string literal. -/
inductive StringPart where
  /-- A character that stands for itself. -/
  | plain (c : Char)
  /-- A backslash and the character after it. -/
  | escape (c : Char)
  /-- A backslash before a carriage return and a line feed: the line goes on. -/
  | crlf
  deriving DecidableEq

namespace StringPart

/-- The characters that an element is written with. -/
def text : StringPart → List Char
  | .plain c => [c]
  | .escape c => ['\\', c]
  | .crlf => ['\\', '\r', '\n']

/-- Whether an element is a plain decimal digit. -/
def isDigit : StringPart → Bool
  | .plain c => c.isDigit
  | _ => false

/-- Whether an element is an octal escape, in view of the elements after it: `\0` is one only before a digit. -/
def isOctal : StringPart → List StringPart → Bool
  | .escape c, after =>
    (c.isDigit && c != '0') || (c == '0' && (after.head?.map isDigit).getD false)
  | _, _ => false

end StringPart

/-- The characters of some elements. -/
def stringText (parts : List StringPart) : List Char := parts.flatMap StringPart.text

/-- The byte offsets of the octal escapes, counted from `start`. -/
def octalOffsets (start : Nat) : List StringPart → List Nat
  | [] => []
  | part :: rest =>
    let later := octalOffsets (start + Text.byteSize part.text) rest
    if part.isOctal rest then start :: later else later

/--
The elements of a string literal after its opening quote, and the text after its closing quote.
There is none of the latter when the line or the text ends first.
-/
def stringParts (quote : Char) : List Char → List StringPart × Option (List Char)
  | [] => ([], none)
  | c :: rest =>
    if c = '\\' then
      match rest with
      | [] => ([], none)
      | '\r' :: '\n' :: rest =>
        let (parts, after) := stringParts quote rest
        (.crlf :: parts, after)
      | d :: rest =>
        let (parts, after) := stringParts quote rest
        (.escape d :: parts, after)
    else if c = quote then ([], some rest)
    else if c = '\n' ∨ c = '\r' then ([], none)
    else
      let (parts, after) := stringParts quote rest
      (.plain c :: parts, after)

/-- How a stretch of template characters ends. -/
inductive TemplateStop where
  /-- At the backtick that closes the template. -/
  | close
  /-- At the dollar sign and brace that open a substitution. -/
  | hole
  deriving DecidableEq

/-- The template characters up to and with what ends them, unless the text ends first. -/
def templateBody : List Char → Option (TemplateStop × List Char × List Char)
  | [] => none
  | c :: rest =>
    if c = '\\' then
      match rest with
      | [] => none
      | d :: rest => (templateBody rest).map fun (stop, body, after) => (stop, c :: d :: body, after)
    else if c = '\x60' then some (.close, [c], rest)
    else if c = '$' ∧ rest.head? = some '{' then some (.hole, ['$', '{'], rest.tail)
    else (templateBody rest).map fun (stop, body, after) => (stop, c :: body, after)

/--
The body of a regular expression up to and with the slash that closes it, unless the line or the
text ends first. A slash within a class, `inClass`, closes nothing.
-/
def regexBody (inClass : Bool) : List Char → Option (List Char × List Char)
  | [] => none
  | c :: rest =>
    if c = '\n' ∨ c = '\r' then none
    else if c = '\\' then
      match rest with
      | [] => none
      | d :: rest => (regexBody inClass rest).map fun (body, after) => (c :: d :: body, after)
    else if c = '[' then (regexBody true rest).map fun (body, after) => (c :: body, after)
    else if c = ']' then (regexBody false rest).map fun (body, after) => (c :: body, after)
    else if c = '/' ∧ inClass = false then some ([c], rest)
    else (regexBody inClass rest).map fun (body, after) => (c :: body, after)

/-- The body of a block comment up to and with the star and slash that close it. -/
def commentBody : List Char → Option (List Char × List Char)
  | [] => none
  | c :: rest =>
    if c = '*' ∧ rest.head? = some '/' then some (['*', '/'], rest.tail)
    else (commentBody rest).map fun (body, after) => (c :: body, after)

/--
The rest of a numeric literal whose last character so far is `before`. A sign belongs to it right
after an exponent mark, unless the literal is hexadecimal.
-/
def numberTail (hexadecimal : Bool) : (before : Char) → List Char → List Char × List Char
  | _, [] => ([], [])
  | before, c :: rest =>
    if c.isAlphanum ∨ c = '_' ∨ c = '.' ∨
        ((c = '+' ∨ c = '-') ∧ hexadecimal = false ∧ (before = 'e' ∨ before = 'E')) then
      let (tail, after) := numberTail hexadecimal c rest
      (c :: tail, after)
    else ([], c :: rest)

/-! Nothing is lost: what a function reads and the rest make up the text. -/

theorem stringParts_append {quote : Char} {text after : List Char} {parts : List StringPart}
    (h : stringParts quote text = (parts, some after)) :
    stringText parts ++ quote :: after = text := by
  induction hn : text.length using Nat.strongRecOn generalizing text parts with
  | ind n ih =>
    unfold stringParts at h
    split at h
    · simp at h
    · next c rest =>
      simp only [List.length_cons] at hn
      split at h
      · next hc =>
        split at h
        · simp at h
        · next r =>
          simp only [Prod.mk.injEq] at h
          obtain ⟨rfl, h⟩ := h
          simp only [List.length_cons] at hn
          have := ih _ (by omega) (Prod.ext rfl h) rfl
          simp [stringText, StringPart.text, hc] at this ⊢
          exact this
        · next d r _ =>
          simp only [Prod.mk.injEq] at h
          obtain ⟨rfl, h⟩ := h
          simp only [List.length_cons] at hn
          have := ih _ (by omega) (Prod.ext rfl h) rfl
          simp [stringText, StringPart.text, hc] at this ⊢
          exact this
      · split at h
        · next hq =>
          simp only [Prod.mk.injEq, Option.some.injEq] at h
          simp [← h.1, stringText, h.2, hq]
        · split at h
          · simp at h
          · simp only [Prod.mk.injEq] at h
            obtain ⟨rfl, h⟩ := h
            have := ih _ (by omega) (Prod.ext rfl h) rfl
            simp [stringText, StringPart.text] at this ⊢
            exact this

theorem templateBody_append {text body after : List Char} {stop : TemplateStop}
    (h : templateBody text = some (stop, body, after)) : body ++ after = text := by
  fun_induction templateBody text generalizing stop body after with
  | case1 => simp at h
  | case2 => simp at h
  | case3 d rest ih =>
    obtain ⟨⟨s, b, a⟩, hb, h⟩ := Option.map_eq_some_iff.1 h
    simp only [Prod.mk.injEq] at h
    obtain ⟨-, rfl, rfl⟩ := h
    simp [ih hb]
  | case4 =>
    simp only [Option.some.injEq, Prod.mk.injEq] at h
    simp [← h.2.1, h.2.2]
  | case5 c rest _ _ hd =>
    simp only [Option.some.injEq, Prod.mk.injEq] at h
    cases rest <;> simp_all [← h.2.1]
  | case6 c rest _ _ _ ih =>
    obtain ⟨⟨s, b, a⟩, hb, h⟩ := Option.map_eq_some_iff.1 h
    simp only [Prod.mk.injEq] at h
    obtain ⟨-, rfl, rfl⟩ := h
    simp [ih hb]

theorem regexBody_append {inClass : Bool} {text body after : List Char}
    (h : regexBody inClass text = some (body, after)) : body ++ after = text := by
  fun_induction regexBody inClass text generalizing body after with
  | case1 => simp at h
  | case2 => simp at h
  | case3 => simp at h
  | case4 inClass _ d rest ih =>
    obtain ⟨⟨b, a⟩, hb, h⟩ := Option.map_eq_some_iff.1 h
    simp only [Prod.mk.injEq] at h
    obtain ⟨rfl, rfl⟩ := h
    simp [ih hb]
  | case7 =>
    simp only [Option.some.injEq, Prod.mk.injEq] at h
    simp [← h.1, h.2]
  | case5 _ _ _ _ ih | case6 _ _ _ _ _ ih | case8 _ _ _ _ _ _ _ _ ih =>
    obtain ⟨⟨b, a⟩, hb, h⟩ := Option.map_eq_some_iff.1 h
    simp only [Prod.mk.injEq] at h
    obtain ⟨rfl, rfl⟩ := h
    simp [ih hb]

theorem commentBody_append {text body after : List Char} (h : commentBody text = some (body, after)) :
    body ++ after = text := by
  fun_induction commentBody text generalizing body after with
  | case1 => simp at h
  | case2 c rest hc =>
    simp only [Option.some.injEq, Prod.mk.injEq] at h
    cases rest <;> simp_all [← h.1]
  | case3 c rest _ ih =>
    obtain ⟨⟨b, a⟩, hb, h⟩ := Option.map_eq_some_iff.1 h
    simp only [Prod.mk.injEq] at h
    obtain ⟨rfl, rfl⟩ := h
    simp [ih hb]

theorem numberTail_append (hexadecimal : Bool) (before : Char) (text : List Char) :
    (numberTail hexadecimal before text).1 ++ (numberTail hexadecimal before text).2 = text := by
  fun_induction numberTail hexadecimal before text <;> simp_all

end ParseGoal.Ecma
