import ParseGoal.Proofs.Ecma.Opacity

/-!
Where operands stand. Before one, a slash starts a regular expression; after one, a slash divides. What the
single lexemes of an expression do there.
-/
namespace ParseGoal.Ecma

/-- Words that mean something to a scan, at least at some places. -/
def markedWords : List String :=
  regexWords ++ controlWords ++ strictWords ++ ["import", "export", "await", "let", "class"]

/-- No class waits for its body, and no arrow for the end of its own. -/
structure State.IsSettled (s : State) : Prop where
  classDepth : s.classDepth = none
  arrowDepths : s.arrowDepths = []

/-- An operand is to come. -/
structure State.AwaitsOperand (s : State) : Prop extends s.IsSettled where
  regexAllowed : regexAfter s.previous = true
  afterPoint : s.afterPoint = false
  controlNext : s.controlNext = false

namespace State

variable {s t : State} {word : String}

/-- After a token, only what it does not touch tells where it stood. -/
theorem afterToken_congr (hs : s.IsSettled) (ht : t.IsSettled) (hframes : t.frames = s.frames)
    (token : Token) : t.afterToken token = s.afterToken token := by
  rw [afterToken, afterToken, State.mk.injEq]
  exact ⟨hframes, rfl, rfl, rfl, rfl, ht.classDepth.trans hs.classDepth.symm,
    ht.arrowDepths.trans hs.arrowDepths.symm⟩

@[simp] theorem afterToken_afterToken (s : State) (earlier later : Token) :
    (s.afterToken earlier).afterToken later = s.afterToken later := rfl

theorem endArrows_eq (h : s.IsSettled) (depth : Nat) : s.endArrows depth = s := by
  rw [endArrows, h.arrowDepths, List.filter_nil, ← h.arrowDepths]

theorem IsSettled.afterToken (h : s.IsSettled) (token : Token) : (s.afterToken token).IsSettled :=
  ⟨h.classDepth, h.arrowDepths⟩

theorem IsSettled.push (h : s.IsSettled) (enclosure : Enclosure) (start : Nat) :
    (s.push enclosure start).IsSettled := ⟨h.classDepth, h.arrowDepths⟩

theorem IsSettled.pop (h : s.IsSettled) (frames : List Frame) :
    IsSettled { s with frames := frames } := ⟨h.classDepth, h.arrowDepths⟩

theorem IsSettled.awaitsOperand (h : s.IsSettled) (token : Token) (htoken : regexAfter (some token) = true)
    (hpoint : token ≠ .punctuator '.') : (s.afterToken token).AwaitsOperand where
  toIsSettled := h.afterToken token
  regexAllowed := htoken
  afterPoint := by simpa [afterPoint, State.afterToken] using hpoint
  controlNext := rfl

theorem restriction?_of_unmarked (h : word ∉ markedWords) (s : State) (rest : List Char) :
    s.restriction? word rest = none := by
  simp only [markedWords, controlWords, List.mem_append, List.mem_cons, not_or] at h
  obtain ⟨⟨⟨-, hcontrol⟩, hstrict⟩, himport, hexport, hawait, hlet, -⟩ := h
  have hwith : word ≠ "with" := hcontrol.2.2.2.1
  rw [State.restriction?, if_neg himport, if_neg hexport, if_neg hwith, if_neg hawait, if_neg hlet,
    if_neg fun h => hstrict (List.contains_iff_mem.1 h.1)]

theorem afterWord_of_unmarked (h : word ∉ markedWords) (s : State) :
    s.afterWord word = s.afterToken (.word word) := by
  simp only [markedWords, List.mem_append, List.mem_cons, not_or] at h
  obtain ⟨⟨⟨-, hcontrol⟩, -⟩, -, -, hawait, -, hclass, -⟩ := h
  have hhead : s.opensHead word = false := by simp [opensHead, hcontrol, hawait]
  rw [afterWord, hhead, if_neg hclass]
  exact ite_self _

end State

/-! The lexemes of an expression, one by one. -/

/-- A run of characters of a class ends before a character that is not of it. -/
theorem isIdentifierPart_of_isAlpha {c : Char} (h : c.isAlpha = true) : isIdentifierPart c = true := by
  simp [isIdentifierPart, isIdentifierStart, h]

theorem isDigit_of_isAlpha {c : Char} (h : c.isAlpha = true) : c.isDigit = false := by
  have hbeyond {least : UInt32} (hleast : '9'.val < least) (hc : least ≤ c.val) : c.isDigit = false :=
    Bool.and_eq_false_iff.2 <| .inr <| decide_eq_false fun hle =>
      UInt32.not_le.2 hleast (UInt32.le_trans hc hle)
  rcases Bool.or_eq_true_iff.1 h with hupper | hlower
  · have hc : 'A'.val ≤ c.val ∧ c.val ≤ 'Z'.val := of_decide_eq_true hupper
    exact hbeyond (by decide) hc.1
  · have hc := Bool.and_eq_true_iff.1 hlower
    exact hbeyond (by decide) (of_decide_eq_true hc.1)

theorem cut_digit {c : Char} (hc : c.isDigit = true) (context : Context) (rest : List Char) :
    cut context c rest = cutNumber c rest := by
  have hdigits : ∀ n < 0x80, (Char.ofNat n).isDigit = true →
      Char.ofNat n ∉ signs ∧ Char.ofNat n ∉ ['\n', '/', '\'', '"', '\x60', '}'] ∧
      isInlineBlank (Char.ofNat n) = false ∧ Delimiter.ofOpener? (Char.ofNat n) = none ∧
      Delimiter.ofCloser? (Char.ofNat n) = none := by
    decide +kernel
  have hascii : c.toNat < 0x80 :=
    toNat_lt_of_isIdentifierPart (by rw [isIdentifierPart, hc, Bool.or_true])
  specialize hdigits c.toNat hascii
  rw [Char.ofNat_toNat] at hdigits
  obtain ⟨hsigns, hspecial, hblank, hopener, hcloser⟩ := hdigits hc
  simp only [List.mem_cons, List.not_mem_nil, or_false, not_or] at hspecial
  obtain ⟨h1, h2, h3, h4, h5, h6⟩ := hspecial
  rw [cut_other context hsigns]
  simp only [h1, h2, h3, h4, h5, h6, hblank, hopener, hcloser, hc, if_false, if_true,
    false_and, or_self, Bool.false_eq_true]

namespace Place

variable {s : State} (offset : Nat) {rest : List Char}

theorem step_blank (s : State) (offset : Nat) (rest : List Char) :
    Step ⟨s, offset, ' ' :: rest⟩ [] ⟨s, offset + 1, rest⟩ := .intro rfl rfl

/-- A word in front of what cannot go on with it. -/
theorem step_word {word : List Char} (hne : word ≠ []) (hletters : ∀ c ∈ word, c.isAlpha = true)
    (hrest : ∀ c ∈ rest.head?, isWordPart c = false)
    (hfree : s.afterPoint = true ∨ s.restriction? (String.ofList word) rest = none) :
    ∃ offset', Step ⟨s, offset, word ++ rest⟩ [] ⟨s.afterWord (String.ofList word), offset', rest⟩ := by
  obtain ⟨c, more, rfl⟩ := List.exists_cons_of_ne_nil hne
  have hstart : isIdentifierStart c = true := by
    rw [isIdentifierStart, hletters c List.mem_cons_self]
    rfl
  have hmore : ∀ d ∈ more, isWordPart d = true := fun d hd =>
    isWordPart_of_isIdentifierPart (isIdentifierPart_of_isAlpha (hletters d (List.mem_cons_of_mem _ hd)))
  have hcut := cut_word hstart hmore hrest s.context
  have hfound : (if s.afterPoint then none else s.restriction? (String.ofList (c :: more)) rest) = none := by
    rcases hfree with hpoint | hnone
    · rw [if_pos hpoint]
    · rw [hnone, ite_self]
  refine ⟨_, .intro hcut ?_⟩
  rw [State.take, hfound]
  rfl

/-- A word that means nothing to a scan, as a lexeme. -/
theorem step_unmarked {w : String} (hunmarked : w ∉ markedWords) (hw : isWord w = true)
    (hrest : ∀ c ∈ rest.head?, isWordPart c = false) (s : State) :
    Step ⟨s, offset, w.toList ++ rest⟩ [] ⟨s.afterToken (.word w), offset + Text.byteSize w.toList, rest⟩ := by
  have hstep := step_of_isWord hw hrest s offset
  rwa [State.restriction?_of_unmarked hunmarked, State.afterWord_of_unmarked hunmarked, ite_self] at hstep

/-- A literal with nothing special in its body. -/
theorem step_literal (kind : LiteralKind) {body : List Char} (hfits : kind.Fits s.context rest)
    (hplain : kind.Plain body) {next : State}
    (htake : s.take offset (kind.lexeme body) rest = ⟨[], .ok next⟩) :
    ∃ offset', Step ⟨s, offset, kind.around body ++ rest⟩ [] ⟨next, offset', rest⟩ :=
  ⟨_, .of_cutAt (LiteralKind.cutAt_around hfits hplain) htake⟩

theorem step_string (rest : List Char) {quote : Char} (hquote : quote = '\'' ∨ quote = '"') {body : List Char}
    (hbody : (LiteralKind.string quote).Plain body) :
    ∃ offset', Step ⟨s, offset, (LiteralKind.string quote).around body ++ rest⟩ []
      ⟨s.afterToken .literal, offset', rest⟩ := by
  refine step_literal offset (.string quote) hquote hbody ?_
  have hplain : '\\' ∉ stringText (body.map .plain) := by
    rw [stringText_map_plain]
    exact hbody _ (by simp)
  rw [LiteralKind.lexeme, State.take, octalOffsets_of_plain hplain]
  rfl

theorem step_regex (hallowed : regexAfter s.previous = true) {flags body : List Char}
    (hflags : ∀ c ∈ flags, c.isAlpha = true) (hbody : (LiteralKind.regex flags).Plain body)
    (hrest : ∀ c ∈ rest.head?, isWordPart c = false) :
    ∃ offset', Step ⟨s, offset, (LiteralKind.regex flags).around body ++ rest⟩ []
      ⟨s.afterToken .literal, offset', rest⟩ := by
  have hstop : ∀ c ∈ rest.head?, isIdentifierPart c = false := fun c hc =>
    Bool.eq_false_iff.2 fun hpart => Bool.eq_false_iff.1 (hrest c hc) (isWordPart_of_isIdentifierPart hpart)
  have hfits := takeWhile_append_stop (fun c hc => isIdentifierPart_of_isAlpha (hflags c hc)) hstop
  exact step_literal offset (.regex flags) ⟨hallowed, hfits⟩ hbody rfl

theorem step_opener {d : Delimiter} {enclosure : Enclosure} (hclass : s.classDepth = none)
    (henclosure : s.enclosureOf d = enclosure) :
    Step ⟨s, offset, d.opener :: rest⟩ []
      ⟨(s.push enclosure offset).afterToken (.punctuator d.opener), offset + 1, rest⟩ := by
  have hcut : cut s.context d.opener rest = ⟨.opener d, [d.opener], rest⟩ := by cases d <;> rfl
  have hnext : s.takeOpener offset d = (s.push enclosure offset).afterToken (.punctuator d.opener) := by
    rw [State.takeOpener, henclosure, ← hclass, ite_self]
  have hsize : Text.byteSize [d.opener] = 1 := by cases d <;> rfl
  rw [← hnext, ← hsize]
  exact .intro hcut rfl

/-- A closing bracket ends what the innermost bracket encloses. -/
theorem step_closer (rest : List Char) (hs : s.IsSettled) {frame : Frame} {outer : List Frame}
    (hframes : s.frames = frame :: outer) {d : Delimiter} (hd : frame.enclosure.delimiter = d)
    (hsubstitution : frame.enclosure ≠ .substitution) :
    ∃ offset', Step ⟨s, offset, d.closer :: rest⟩ [] ⟨State.afterToken { s with frames := outer }
      (if frame.enclosure = .controlHead then .punctuator d.closer else .close d), offset', rest⟩ := by
  have hinside : s.context.inSubstitution = false := by simp [State.context, hframes, hsubstitution]
  have hcut : cut s.context d.closer rest = ⟨.closer d, [d.closer], rest⟩ := cut_closer (fun _ => hinside) rest
  refine ⟨_, .intro hcut ?_⟩
  rw [State.take, State.takeCloser, hframes]
  dsimp only
  rw [if_pos hd, State.endArrows_eq (hs.pop outer)]

/-- Commas, semicolons, points and plus signs, in front of what cannot go on with them. -/
theorem step_sign (rest : List Char) (hs : s.IsSettled) {c : Char}
    (hcut : cut s.context c rest = ⟨.punctuator c, [c], rest⟩) :
    ∃ offset', Step ⟨s, offset, c :: rest⟩ [] ⟨s.afterToken (.punctuator c), offset', rest⟩ := by
  refine ⟨_, .intro hcut ?_⟩
  rw [State.take, State.endArrows_eq hs, ite_self]

/-- A slash after an operand, and the blank behind it. -/
theorem step_division (hs : s.IsSettled) (hoperand : regexAfter s.previous = false) :
    ∃ offset', Step ⟨s, offset, '/' :: ' ' :: rest⟩ []
      ⟨s.afterToken (.punctuator '/'), offset', ' ' :: rest⟩ := by
  refine step_sign offset _ hs ?_
  have hallowed : s.context.regexAllowed ≠ true := Bool.eq_false_iff.1 hoperand
  rw [cut_slash, cutSlash, if_neg (by simp), if_neg (by simp), if_neg hallowed, if_neg (by simp)]

end Place

/-! Numbers. -/

/-- The digits of a fraction after a point, or nothing. -/
def IsFraction (text : List Char) : Prop :=
  text = [] ∨ ∃ digits, text = '.' :: digits ∧ ∀ c ∈ digits, c.isDigit = true

/-- An exponent's letter, perhaps a sign, and digits, or nothing. -/
def IsExponent (text : List Char) : Prop :=
  text = [] ∨ ∃ e sign digits, text = e :: (sign ++ digits) ∧ (e = 'e' ∨ e = 'E') ∧
    (sign = [] ∨ sign = ['+'] ∨ sign = ['-']) ∧ ∀ c ∈ digits, c.isDigit = true

/-- A decimal number: zero or digits without a leading zero, then a fraction and an exponent. -/
def IsDecimal (text : List Char) : Prop :=
  ∃ c more fraction exponent, text = c :: (more ++ (fraction ++ exponent)) ∧ c.isDigit = true ∧
    (∀ d ∈ more, d.isDigit = true) ∧ (c = '0' → more = []) ∧ IsFraction fraction ∧ IsExponent exponent

/-- Characters that go on with any number. -/
def isNumberPart (c : Char) : Bool := c.isAlphanum || c == '_' || c == '.'

/-- What cannot go on with a number. -/
def EndsNumber (rest : List Char) : Prop :=
  ∀ c ∈ rest.head?, isNumberPart c = false ∧ c ≠ '+' ∧ c ≠ '-'

theorem isNumberPart_of_isDigit {c : Char} (h : c.isDigit = true) : isNumberPart c = true := by
  simp [isNumberPart, isAlphanum_of_isDigit h]

theorem isNumberPart_iff {c : Char} : isNumberPart c = true ↔ c.isAlphanum = true ∨ c = '_' ∨ c = '.' := by
  simp [isNumberPart, or_assoc]

theorem numberTail_end {rest : List Char} (h : EndsNumber rest) (hexadecimal : Bool) (before : Char) :
    numberTail hexadecimal before rest = ([], rest) := by
  cases rest with
  | nil => rfl
  | cons c rest =>
    obtain ⟨hpart, hplus, hminus⟩ := h c rfl
    have hpart' := fun h => Bool.eq_false_iff.1 hpart (isNumberPart_iff.2 h)
    exact if_neg (by tauto)

theorem numberTail_cons {hexadecimal : Bool} {before c : Char} {text rest : List Char}
    (hc : isNumberPart c = true ∨ ((c = '+' ∨ c = '-') ∧ hexadecimal = false ∧ (before = 'e' ∨ before = 'E')))
    (h : numberTail hexadecimal c (text ++ rest) = (text, rest)) :
    numberTail hexadecimal before (c :: text ++ rest) = (c :: text, rest) := by
  rw [isNumberPart_iff] at hc
  rw [List.cons_append, numberTail, if_pos (by tauto), h]

theorem numberTail_run {hexadecimal : Bool} {run text rest : List Char}
    (hrun : ∀ c ∈ run, isNumberPart c = true)
    (h : ∀ before, numberTail hexadecimal before (text ++ rest) = (text, rest)) (before : Char) :
    numberTail hexadecimal before ((run ++ text) ++ rest) = (run ++ text, rest) := by
  induction run generalizing before with
  | nil => exact h before
  | cons c run ih =>
    have hmore : ∀ d ∈ run, isNumberPart d = true := fun d hd => hrun d (List.mem_cons_of_mem c hd)
    exact numberTail_cons (.inl (hrun c List.mem_cons_self)) (ih hmore c)

theorem numberTail_digits {digits rest : List Char} (h : ∀ c ∈ digits, c.isDigit = true)
    (hrest : EndsNumber rest) (before : Char) :
    numberTail false before (digits ++ rest) = (digits, rest) := by
  have hend : numberTail false before ((digits ++ []) ++ rest) = (digits ++ [], rest) :=
    numberTail_run (fun c hc => isNumberPart_of_isDigit (h c hc)) (numberTail_end hrest false) before
  rwa [List.append_nil] at hend

theorem numberTail_exponent {exponent rest : List Char} (h : IsExponent exponent) (hrest : EndsNumber rest)
    (before : Char) : numberTail false before (exponent ++ rest) = (exponent, rest) := by
  obtain rfl | ⟨e, sign, digits, rfl, he, hsign, hdigits⟩ := h
  · exact numberTail_end hrest false before
  · have hdigits (before : Char) := numberTail_digits hdigits hrest before
    refine numberTail_cons (.inl (by rcases he with rfl | rfl <;> rfl)) ?_
    rcases hsign with rfl | rfl | rfl
    · exact hdigits e
    · exact numberTail_cons (.inr ⟨.inl rfl, rfl, he⟩) (hdigits _)
    · exact numberTail_cons (.inr ⟨.inr rfl, rfl, he⟩) (hdigits _)

theorem cutNumber_decimal {text rest : List Char} (h : IsDecimal text) (hrest : EndsNumber rest) :
    ∃ c more, text = c :: more ∧ c.isDigit = true ∧
      cutNumber c (more ++ rest) = ⟨.number false, text, rest⟩ := by
  obtain ⟨c, more, fraction, exponent, rfl, hc, hmore, hzero, hfraction, hexponent⟩ := h
  refine ⟨c, _, rfl, hc, ?_⟩
  have hread : numberTail false c ((more ++ (fraction ++ exponent)) ++ rest) =
      (more ++ (fraction ++ exponent), rest) := by
    refine numberTail_run (fun d hd => isNumberPart_of_isDigit (hmore d hd)) (fun before => ?_) c
    refine numberTail_run (fun d hd => ?_) (numberTail_exponent hexponent hrest) before
    obtain rfl | ⟨digits, rfl, hdigits⟩ := hfraction
    · cases hd
    · rcases List.mem_cons.1 hd with rfl | hd
      · rfl
      · exact isNumberPart_of_isDigit (hdigits d hd)
  -- After a zero, there is a point, an exponent's letter or the end.
  have hhead : c = '0' → ∀ d ∈ ((more ++ (fraction ++ exponent)) ++ rest).head?,
      d.isDigit = false ∧ d ≠ 'x' ∧ d ≠ 'X' := by
    intro h0 d hd
    rw [hzero h0, List.nil_append] at hd
    obtain rfl | ⟨digits, rfl, -⟩ := hfraction
    · obtain rfl | ⟨e, sign, digits, rfl, he, -⟩ := hexponent
      · have hpart := Bool.eq_false_iff.1 (hrest d hd).1
        refine ⟨Bool.eq_false_iff.2 fun h => hpart (isNumberPart_of_isDigit h), ?_, ?_⟩ <;>
        · rintro rfl
          exact hpart rfl
      · obtain rfl : e = d := by simpa using hd
        rcases he with rfl | rfl <;> decide
    · obtain rfl : '.' = d := by simpa using hd
      decide
  have hlegacy : ¬ (c = '0' ∧
      ((((more ++ (fraction ++ exponent)) ++ rest).head?.map Char.isDigit).getD false = true)) := by
    rintro ⟨h0, hdigit⟩
    obtain ⟨d, hd, hmem⟩ := head?_isDigit.1 hdigit
    rw [(hhead h0 d hmem).1] at hd
    cases hd
  have hhex : ¬ (c = '0' ∧ (((more ++ (fraction ++ exponent)) ++ rest).head? = some 'x' ∨
      ((more ++ (fraction ++ exponent)) ++ rest).head? = some 'X')) := by
    rintro ⟨h0, hx | hx⟩
    · exact (hhead h0 'x' hx).2.1 rfl
    · exact (hhead h0 'X' hx).2.2 rfl
  rw [cutNumber]
  simp only [hlegacy, hhex, decide_false, hread]

namespace Place

variable {s : State} (offset : Nat) {rest : List Char}

theorem step_number {text : List Char} (h : IsDecimal text) (hrest : EndsNumber rest) :
    ∃ offset', Step ⟨s, offset, text ++ rest⟩ [] ⟨s.afterToken .literal, offset', rest⟩ := by
  obtain ⟨c, more, rfl, hc, hcut⟩ := cutNumber_decimal h hrest
  exact ⟨_, .intro ((cut_digit hc s.context _).trans hcut) rfl⟩

end Place
end ParseGoal.Ecma
