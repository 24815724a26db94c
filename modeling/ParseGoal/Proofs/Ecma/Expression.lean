import ParseGoal.Proofs.Ecma.Operand

/-!
A grammar of expressions, and that every expression of it passes under either goal: at each slash the
last token alone tells a division from a regular expression.
-/
namespace ParseGoal.Ecma

/-- Words of ASCII letters. -/
def IsWord (text : List Char) : Prop := text ≠ [] ∧ ∀ c ∈ text, c.isAlpha = true

/-- Words without a meaning to a scan; reserved words that have none are among them. -/
def IsIdentifier (text : List Char) : Prop := IsWord text ∧ String.ofList text ∉ markedWords

/-- Regular expressions without classes and escapes, and the letters of their flags. -/
def IsRegex (text : List Char) : Prop :=
  ∃ flags body, text = (LiteralKind.regex flags).around body ∧ (LiteralKind.regex flags).Plain body ∧
    ∀ c ∈ flags, c.isAlpha = true

/-- Kinds of phrases. -/
inductive Phrase where
  /-- An expression, and whether its last token is a number. -/
  | expression (numeric : Bool)
  /-- Expressions with commas between them. -/
  | items
  /-- The rest of a template behind a backtick or the end of a substitution. -/
  | stretches

/-- The texts of each kind of phrase. -/
inductive Spells : Phrase → List Char → Prop
  | identifier {word : List Char} (hword : IsIdentifier word) : Spells (.expression false) word
  | number {text : List Char} (htext : IsDecimal text) : Spells (.expression true) text
  | string {quote : Char} {body : List Char} (hquote : quote = '\'' ∨ quote = '"')
      (hbody : (LiteralKind.string quote).Plain body) :
      Spells (.expression false) ((LiteralKind.string quote).around body)
  | regex {text : List Char} (htext : IsRegex text) : Spells (.expression false) text
  | template {text : List Char} (h : Spells .stretches text) : Spells (.expression false) ('\x60' :: text)
  | group {numeric : Bool} {text : List Char} (h : Spells (.expression numeric) text) :
      Spells (.expression false) ('(' :: (text ++ [')']))
  | list {text : List Char} (h : Spells .items text) : Spells (.expression false) ('[' :: (text ++ [']']))
  | call {numeric : Bool} {callee arguments : List Char} (hcallee : Spells (.expression numeric) callee)
      (harguments : Spells .items arguments) :
      Spells (.expression false) (callee ++ '(' :: (arguments ++ [')']))
  | index {numeric numeric' : Bool} {text place : List Char} (h : Spells (.expression numeric) text)
      (hplace : Spells (.expression numeric') place) :
      Spells (.expression false) (text ++ '[' :: (place ++ [']']))
  /-- A point after a number would be part of it. -/
  | member {text name : List Char} (h : Spells (.expression false) text) (hname : IsWord name)
      (hunmarked : String.ofList name ∉ regexWords) : Spells (.expression false) (text ++ '.' :: name)
  | update {word text : List Char} {numeric : Bool} (hword : IsIdentifier word)
      (h : Spells (.expression numeric) text) :
      Spells (.expression numeric) (word ++ '+' :: '+' :: ' ' :: '/' :: ' ' :: text)
  | quotient {numeric numeric' : Bool} {left right : List Char} (hleft : Spells (.expression numeric) left)
      (hright : Spells (.expression numeric') right) :
      Spells (.expression numeric') (left ++ ' ' :: '/' :: ' ' :: right)
  | sum {numeric numeric' : Bool} {left right : List Char} (hleft : Spells (.expression numeric) left)
      (hright : Spells (.expression numeric') right) :
      Spells (.expression numeric') (left ++ ' ' :: '+' :: ' ' :: right)
  | noItems : Spells .items []
  | lastItem {numeric : Bool} {text : List Char} (h : Spells (.expression numeric) text) : Spells .items text
  | moreItems {numeric : Bool} {text more : List Char} (h : Spells (.expression numeric) text)
      (hmore : Spells .items more) : Spells .items (text ++ ',' :: ' ' :: more)
  | lastStretch {body : List Char} (hbody : (LiteralKind.template .close).Plain body) :
      Spells .stretches (body ++ ['\x60'])
  | substitution {numeric : Bool} {body text more : List Char}
      (hbody : (LiteralKind.template .hole).Plain body) (h : Spells (.expression numeric) text)
      (hmore : Spells .stretches more) : Spells .stretches (body ++ '$' :: '{' :: (text ++ '}' :: more))

/-- What follows an expression ends words and numbers, unless it is a point. -/
def separators : List Char := [' ', ')', ']', '}', ',', '(', '[', ';']

/-- What may follow an expression. After a number, no point may. -/
def Follows (numeric : Bool) (rest : List Char) : Prop :=
  ∀ c ∈ rest.head?, c ∈ separators ∨ (c = '.' ∧ numeric = false)

theorem follows_cons {numeric : Bool} {c : Char} (h : c ∈ separators) (rest : List Char) :
    Follows numeric (c :: rest) := by
  rintro d ⟨⟩
  exact .inl h

theorem follows_point (rest : List Char) : Follows false ('.' :: rest) := by
  rintro d ⟨⟩
  exact .inr ⟨rfl, rfl⟩

theorem Follows.endsWord {numeric : Bool} {rest : List Char} (h : Follows numeric rest) :
    ∀ c ∈ rest.head?, isWordPart c = false := by
  have hall : separators.all (fun c => !isWordPart c) = true := by decide
  intro c hc
  rcases h c hc with hmem | ⟨rfl, -⟩
  · simpa using List.all_eq_true.1 hall c hmem
  · decide

theorem Follows.endsNumber {rest : List Char} (h : Follows true rest) : EndsNumber rest := by
  have hall : separators.all (fun c => !isNumberPart c && c ≠ '+' && c ≠ '-') = true := by decide
  intro c hc
  rcases h c hc with hmem | ⟨-, hnumeric⟩
  · simpa [and_assoc] using List.all_eq_true.1 hall c hmem
  · cases hnumeric

/-- At a place, template characters are read next, for a template that starts at `start` in state `s`. -/
def Resumes (p : Place) (s : State) (start : Nat) (text : List Char) : Prop :=
  ∀ stop body rest, (LiteralKind.template stop).Plain body → text = body ++ (stop.text ++ rest) →
    ∃ offset', Place.Step p [] ⟨s.afterTemplate start stop, offset', rest⟩

theorem resumes_backtick (s : State) (offset : Nat) (text : List Char) :
    Resumes ⟨s, offset, '\x60' :: text⟩ s offset text := by
  rintro stop body rest hplain rfl
  have htext : '\x60' :: (body ++ (stop.text ++ rest)) =
      (LiteralKind.template stop).around body ++ rest :=
    ((LiteralKind.template stop).around_append body rest).symm
  rw [htext]
  exact Place.step_literal offset (.template stop) trivial hplain rfl

theorem resumes_brace {s : State} (hs : s.IsSettled) {start : Nat} {outer : List Frame}
    (hframes : s.frames = ⟨.substitution, start⟩ :: outer) (offset : Nat) (text : List Char) :
    Resumes ⟨s, offset, '}' :: text⟩ { s with frames := outer } start text := by
  rintro stop body rest hplain rfl
  have htext : '}' :: (body ++ (stop.text ++ rest)) =
      (LiteralKind.templateTail stop).around body ++ rest :=
    ((LiteralKind.templateTail stop).around_append body rest).symm
  have hinside : s.context.inSubstitution = true := by simp [State.context, hframes]
  rw [htext]
  refine Place.step_literal offset (.templateTail stop) hinside hplain ?_
  rw [LiteralKind.lexeme, State.take, State.takeTail, hframes]
  dsimp only
  rw [State.endArrows_eq (hs.pop outer)]
  rfl

/-- What a scan does with a phrase, wherever it comes to one. -/
def Phrase.IsScanned : Phrase → List Char → Prop
  | expression numeric, text => ∀ (s : State) (offset : Nat) (rest : List Char), s.AwaitsOperand →
      Follows numeric rest → ∃ token offset', regexAfter (some token) = false ∧
        Place.Reaches ⟨s, offset, text ++ rest⟩ [] ⟨s.afterToken token, offset', rest⟩
  | items, text => ∀ (s : State) (offset : Nat) (d : Delimiter) (rest : List Char), s.AwaitsOperand →
      d ≠ .curly → ∃ next offset', next.frames = s.frames ∧ next.IsSettled ∧
        Place.Reaches ⟨s, offset, text ++ d.closer :: rest⟩ [] ⟨next, offset', d.closer :: rest⟩
  | stretches, text => ∀ (p : Place) (s : State) (start : Nat) (rest : List Char), s.IsSettled →
      Resumes p s start (text ++ rest) →
        ∃ offset', Place.Reaches p [] ⟨s.afterToken .literal, offset', rest⟩

/-- An expression by itself is one item. -/
theorem isScanned_items {numeric : Bool} {text : List Char} (h : (Phrase.expression numeric).IsScanned text) :
    Phrase.items.IsScanned text := by
  intro s offset d rest hs hd
  have hfollows : Follows numeric (d.closer :: rest) := follows_cons (by cases d <;> decide) rest
  obtain ⟨token, offset', -, hreaches⟩ := h s offset _ hs hfollows
  exact ⟨s.afterToken token, offset', rfl, hs.toIsSettled.afterToken token, hreaches⟩

/-- Items in brackets. -/
theorem reaches_enclosed {text : List Char} (h : Phrase.items.IsScanned text) {s : State}
    (hs : s.IsSettled) {d : Delimiter} (hd : d ≠ .curly) (enclosure : Enclosure)
    (henclosure : s.enclosureOf d = enclosure) (hdelimiter : enclosure.delimiter = d) (offset : Nat)
    (rest : List Char) : ∃ offset', Place.Reaches ⟨s, offset, d.opener :: (text ++ d.closer :: rest)⟩ []
      ⟨s.afterToken (if enclosure = .controlHead then .punctuator d.closer else .close d), offset', rest⟩ := by
  have hsubstitution : enclosure ≠ .substitution := by
    rintro rfl
    exact hd hdelimiter.symm
  have hinside : ((s.push enclosure offset).afterToken (.punctuator d.opener)).AwaitsOperand :=
    (hs.push enclosure offset).awaitsOperand _ rfl (by cases d <;> decide)
  obtain ⟨next, offset', hframes, hnext, hreaches⟩ := h _ (offset + 1) d rest hinside hd
  obtain ⟨offset'', hcloser⟩ :=
    Place.step_closer offset' rest hnext hframes hdelimiter hsubstitution
  rw [State.afterToken_congr hs (hnext.pop s.frames) rfl] at hcloser
  exact ⟨offset'', .step (Place.step_opener offset hs.classDepth henclosure) (hreaches.trans (.single hcloser))⟩

/-- Brackets make an operand, unless they are the round ones of a head. -/
theorem reaches_brackets {text : List Char} (h : Phrase.items.IsScanned text) {s : State} (hs : s.IsSettled)
    (hcontrol : s.controlNext = false) {d : Delimiter} (hd : d ≠ .curly) (offset : Nat) (rest : List Char) :
    ∃ offset', Place.Reaches ⟨s, offset, d.opener :: (text ++ d.closer :: rest)⟩ []
      ⟨s.afterToken (.close d), offset', rest⟩ := by
  cases d with
  | round =>
    have hround : s.enclosureOf .round = .group := by simp [State.enclosureOf, hcontrol]
    exact reaches_enclosed h hs hd .group hround rfl offset rest
  | square => exact reaches_enclosed h hs hd .list rfl rfl offset rest
  | curly => exact absurd rfl hd

theorem regexAfter_close {d : Delimiter} (hd : d ≠ .curly) : regexAfter (some (.close d)) = false := by
  cases d with
  | round | square => rfl
  | curly => exact absurd rfl hd

theorem isScanned_brackets {text : List Char} (h : Phrase.items.IsScanned text) {d : Delimiter}
    (hd : d ≠ .curly) : (Phrase.expression false).IsScanned (d.opener :: (text ++ [d.closer])) := by
  intro s offset rest hs hrest
  obtain ⟨offset', hreaches⟩ := reaches_brackets h hs.toIsSettled hs.controlNext hd offset rest
  refine ⟨.close d, offset', regexAfter_close hd, ?_⟩
  simpa using hreaches

/-- An operand, and brackets behind it. -/
theorem isScanned_applied {numeric : Bool} {text items : List Char}
    (h : (Phrase.expression numeric).IsScanned text) (hitems : Phrase.items.IsScanned items) {d : Delimiter}
    (hd : d ≠ .curly) :
    (Phrase.expression false).IsScanned (text ++ d.opener :: (items ++ [d.closer])) := by
  intro s offset rest hs hrest
  have hopener : d.opener ∈ separators := by
    cases d with
    | round | square => decide
    | curly => exact absurd rfl hd
  obtain ⟨token, offset', -, hreaches⟩ := h s offset _ hs (follows_cons hopener _)
  obtain ⟨offset'', hbrackets⟩ := reaches_brackets hitems (hs.toIsSettled.afterToken token) rfl hd offset' rest
  refine ⟨.close d, offset'', regexAfter_close hd, ?_⟩
  simpa using hreaches.trans hbrackets

theorem IsWord.exists_cons {word : List Char} (h : IsWord word) :
    ∃ c more, word = c :: more ∧ c.isAlpha = true := by
  obtain ⟨c, more, rfl⟩ := List.exists_cons_of_ne_nil h.1
  exact ⟨c, more, rfl, h.2 c List.mem_cons_self⟩

theorem IsIdentifier.step {word : List Char} (h : IsIdentifier word) {s : State} (offset : Nat)
    {rest : List Char} (hrest : ∀ c ∈ rest.head?, isWordPart c = false) :
    ∃ offset', Place.Step ⟨s, offset, word ++ rest⟩ []
      ⟨s.afterToken (.word (String.ofList word)), offset', rest⟩ := by
  have hstep := Place.step_word offset h.1.1 h.1.2 hrest
    (.inr (State.restriction?_of_unmarked h.2 s rest))
  rwa [State.afterWord_of_unmarked h.2] at hstep

theorem IsIdentifier.regexAfter {word : List Char} (h : IsIdentifier word) :
    regexAfter (some (.word (String.ofList word))) = false := by
  refine Bool.eq_false_iff.2 fun hregex => h.2 ?_
  simp only [markedWords, List.mem_append]
  exact .inl (.inl (.inl (List.contains_iff_mem.1 hregex)))

/-- A point and a name, after an operand. -/
theorem reaches_member {name : List Char} (hname : IsWord name) {s : State} (hs : s.IsSettled) (offset : Nat)
    {rest : List Char} (hrest : ∀ c ∈ rest.head?, isWordPart c = false) :
    ∃ offset', Place.Reaches ⟨s, offset, '.' :: (name ++ rest)⟩ []
      ⟨s.afterToken (.word (String.ofList name)), offset', rest⟩ := by
  obtain ⟨c, more, rfl, hc⟩ := hname.exists_cons
  have hdigit : c.isDigit = false := isDigit_of_isAlpha hc
  have hpoint : cut s.context '.' (c :: (more ++ rest)) =
      ⟨.punctuator '.', ['.'], c :: (more ++ rest)⟩ := by
    rw [cut_sign _ (by decide)]
    simp [hdigit]
  obtain ⟨offset', hsign⟩ := Place.step_sign offset _ hs hpoint
  obtain ⟨offset'', hword⟩ := Place.step_word (s := s.afterToken (.punctuator '.')) offset'
    hname.1 hname.2 hrest (.inl rfl)
  exact ⟨offset'', .step hsign (.single hword)⟩

/-- An operator with blanks around it, after an operand and before another one. -/
theorem reaches_operator {numeric : Bool} {right : List Char} (h : (Phrase.expression numeric).IsScanned right)
    {c : Char} (hc : c = '/' ∨ c = '+') {s : State} (hs : s.IsSettled)
    (hoperand : regexAfter s.previous = false) (offset : Nat) {rest : List Char}
    (hrest : Follows numeric rest) : ∃ token offset', regexAfter (some token) = false ∧
      Place.Reaches ⟨s, offset, ' ' :: c :: ' ' :: (right ++ rest)⟩ [] ⟨s.afterToken token, offset', rest⟩ := by
  obtain ⟨offset', hsign⟩ : ∃ offset', Place.Step ⟨s, offset + 1, c :: ' ' :: (right ++ rest)⟩ []
      ⟨s.afterToken (.punctuator c), offset', ' ' :: (right ++ rest)⟩ := by
    rcases hc with rfl | rfl
    · exact Place.step_division _ hs hoperand
    · exact Place.step_sign _ _ hs rfl
  have hawaits : (s.afterToken (.punctuator c)).AwaitsOperand :=
    hs.awaitsOperand _ rfl (by rcases hc with rfl | rfl <;> decide)
  obtain ⟨token, offset'', htoken, hreaches⟩ := h _ (offset' + 1) rest hawaits hrest
  exact ⟨token, offset'', htoken, .step (Place.step_blank s offset _)
    (.step hsign (.step (Place.step_blank _ offset' _) hreaches))⟩

theorem isScanned_member {text name : List Char} (h : (Phrase.expression false).IsScanned text)
    (hname : IsWord name) (hunmarked : String.ofList name ∉ regexWords) :
    (Phrase.expression false).IsScanned (text ++ '.' :: name) := by
  intro s offset rest hs hrest
  obtain ⟨token, offset', -, hreaches⟩ := h s offset _ hs (follows_point (name ++ rest))
  obtain ⟨offset'', hmember⟩ := reaches_member hname (hs.toIsSettled.afterToken token) offset' hrest.endsWord
  have hregex : regexAfter (some (.word (String.ofList name))) = false :=
    Bool.eq_false_iff.2 fun h => hunmarked (List.contains_iff_mem.1 h)
  refine ⟨_, offset'', hregex, ?_⟩
  simpa using hreaches.trans hmember

theorem isScanned_operation {numeric numeric' : Bool} {left right : List Char}
    (hleft : (Phrase.expression numeric).IsScanned left) (hright : (Phrase.expression numeric').IsScanned right)
    {c : Char} (hc : c = '/' ∨ c = '+') :
    (Phrase.expression numeric').IsScanned (left ++ ' ' :: c :: ' ' :: right) := by
  intro s offset rest hs hrest
  obtain ⟨token, offset', htoken, hreaches⟩ :=
    hleft s offset _ hs (follows_cons (c := ' ') (by decide) _)
  obtain ⟨token', offset'', htoken', hmore⟩ :=
    reaches_operator hright hc (hs.toIsSettled.afterToken token) htoken offset' hrest
  refine ⟨token', offset'', htoken', ?_⟩
  simpa using hreaches.trans hmore

/-- The two signs behind a name are one token, so that a slash after them divides. -/
theorem isScanned_update {word text : List Char} {numeric : Bool} (hword : IsIdentifier word)
    (h : (Phrase.expression numeric).IsScanned text) :
    (Phrase.expression numeric).IsScanned (word ++ '+' :: '+' :: ' ' :: '/' :: ' ' :: text) := by
  intro s offset rest hs hrest
  let more := ' ' :: '/' :: ' ' :: (text ++ rest)
  have hplus : ∀ c ∈ ('+' :: '+' :: more).head?, isWordPart c = false := by
    rintro c ⟨⟩
    decide
  obtain ⟨offset', hstep⟩ := hword.step (s := s) offset hplus
  have hupdate : Place.Step ⟨s.afterToken (.word (String.ofList word)), offset', '+' :: '+' :: more⟩ []
      ⟨s.afterToken .update, offset' + 2, more⟩ := .intro rfl rfl
  obtain ⟨token, offset'', htoken, hmore⟩ := reaches_operator h (.inl rfl)
    (hs.toIsSettled.afterToken .update) rfl (offset' + 2) hrest
  refine ⟨token, offset'', htoken, ?_⟩
  simpa using Place.Reaches.step hstep (.step hupdate hmore)

theorem isScanned_moreItems {numeric : Bool} {text more : List Char}
    (h : (Phrase.expression numeric).IsScanned text) (hmore : Phrase.items.IsScanned more) :
    Phrase.items.IsScanned (text ++ ',' :: ' ' :: more) := by
  intro s offset d rest hs hd
  obtain ⟨token, offset', -, hreaches⟩ := h s offset _ hs (follows_cons (c := ',') (by decide) _)
  have hsettled := hs.toIsSettled.afterToken token
  obtain ⟨offset'', hcomma⟩ := Place.step_sign offset' (' ' :: _) hsettled (c := ',') rfl
  obtain ⟨next, last, hframes, hnext, hlast⟩ :=
    hmore _ (offset'' + 1) d rest (hsettled.awaitsOperand (.punctuator ',') rfl (by decide)) hd
  refine ⟨next, last, hframes, hnext, ?_⟩
  simpa using hreaches.trans (.step hcomma (.step (Place.step_blank _ offset'' _) hlast))

/-- An expression between the template characters before it and the rest of the template. -/
theorem isScanned_substitution {numeric : Bool} {body text more : List Char}
    (hbody : (LiteralKind.template .hole).Plain body) (h : (Phrase.expression numeric).IsScanned text)
    (hmore : Phrase.stretches.IsScanned more) :
    Phrase.stretches.IsScanned (body ++ '$' :: '{' :: (text ++ '}' :: more)) := by
  intro p s start rest hs hresumes
  obtain ⟨offset', hhole⟩ := hresumes .hole body (text ++ '}' :: (more ++ rest)) hbody (by
    simp [TemplateStop.text])
  have hinside : ((s.push .substitution start).afterToken (.punctuator '{')).AwaitsOperand :=
    (hs.push .substitution start).awaitsOperand _ rfl (by decide)
  obtain ⟨token, offset'', -, hreaches⟩ :=
    h _ offset' _ hinside (follows_cons (c := '}') (by decide) (more ++ rest))
  have hsettled := hinside.toIsSettled.afterToken token
  obtain ⟨last, hlast⟩ := hmore _ _ start rest (hsettled.pop s.frames)
    (resumes_brace hsettled rfl offset'' (more ++ rest))
  rw [State.afterToken_congr hs (hsettled.pop s.frames) rfl] at hlast
  exact ⟨last, .step hhole (hreaches.trans hlast)⟩

/-- The scan passes over every phrase, and keeps its brackets. -/
theorem Spells.isScanned {phrase : Phrase} {text : List Char} (h : Spells phrase text) :
    phrase.IsScanned text := by
  induction h with
  | identifier hword =>
    intro s offset rest hs hrest
    obtain ⟨offset', hstep⟩ := hword.step (s := s) offset hrest.endsWord
    exact ⟨_, offset', hword.regexAfter, .single hstep⟩
  | number htext =>
    intro s offset rest hs hrest
    obtain ⟨offset', hstep⟩ := Place.step_number (s := s) offset htext hrest.endsNumber
    exact ⟨_, offset', rfl, .single hstep⟩
  | string hquote hbody =>
    intro s offset rest hs hrest
    obtain ⟨offset', hstep⟩ := Place.step_string (s := s) offset rest hquote hbody
    exact ⟨_, offset', rfl, .single hstep⟩
  | regex htext =>
    intro s offset rest hs hrest
    obtain ⟨flags, body, rfl, hbody, hflags⟩ := htext
    obtain ⟨offset', hstep⟩ :=
      Place.step_regex offset hs.regexAllowed hflags hbody hrest.endsWord
    exact ⟨_, offset', rfl, .single hstep⟩
  | @template text h ih =>
    intro s offset rest hs hrest
    obtain ⟨offset', hreaches⟩ := ih _ s offset rest hs.toIsSettled (resumes_backtick s offset (text ++ rest))
    exact ⟨_, offset', rfl, hreaches⟩
  | group h ih => exact isScanned_brackets (d := .round) (isScanned_items ih) (by decide)
  | list h ih => exact isScanned_brackets (d := .square) ih (by decide)
  | call hcallee harguments ihcallee iharguments =>
    exact isScanned_applied (d := .round) ihcallee iharguments (by decide)
  | index h hplace ih ihplace =>
    exact isScanned_applied (d := .square) ih (isScanned_items ihplace) (by decide)
  | member h hname hunmarked ih => exact isScanned_member ih hname hunmarked
  | update hword h ih => exact isScanned_update hword ih
  | quotient hleft hright ihleft ihright => exact isScanned_operation ihleft ihright (.inl rfl)
  | sum hleft hright ihleft ihright => exact isScanned_operation ihleft ihright (.inr rfl)
  | noItems =>
    intro s offset d rest hs hd
    exact ⟨s, offset, rfl, hs.toIsSettled, .refl _⟩
  | lastItem h ih => exact isScanned_items ih
  | moreItems h hmore ih ihmore => exact isScanned_moreItems ih ihmore
  | lastStretch hbody =>
    intro p s start rest hs hresumes
    obtain ⟨offset', hstep⟩ := hresumes .close _ rest hbody (List.append_assoc ..)
    exact ⟨offset', .single hstep⟩
  | substitution hbody h hmore ih ihmore => exact isScanned_substitution hbody ih ihmore

/-- No expression starts with a hash. -/
theorem Spells.exists_cons {phrase : Phrase} {text : List Char} (h : Spells phrase text) :
    match phrase with
    | .expression _ => ∃ c more, text = c :: more ∧ c ≠ '#'
    | _ => True := by
  have letter {c : Char} (h : c.isAlpha = true) : c ≠ '#' := by
    rintro rfl
    cases h
  induction h with
  | identifier hword =>
    obtain ⟨c, more, rfl, hc⟩ := hword.1.exists_cons
    exact ⟨c, more, rfl, letter hc⟩
  | number htext =>
    obtain ⟨c, more, fraction, exponent, rfl, hc, -⟩ := htext
    refine ⟨c, _, rfl, ?_⟩
    rintro rfl
    cases hc
  | string hquote => exact ⟨_, _, rfl, by rcases hquote with rfl | rfl <;> decide⟩
  | regex htext =>
    obtain ⟨flags, body, rfl, -⟩ := htext
    exact ⟨_, _, rfl, by decide⟩
  | template | group | list => exact ⟨_, _, rfl, by decide⟩
  | update hword =>
    obtain ⟨c, more, rfl, hc⟩ := hword.1.exists_cons
    exact ⟨c, _, rfl, letter hc⟩
  | call _ _ ih | index _ _ ih | member _ _ _ ih | quotient _ _ ih | sum _ _ ih =>
    obtain ⟨c, more, rfl, hc⟩ := ih
    exact ⟨c, _, rfl, hc⟩
  | noItems | lastItem | moreItems | lastStretch | substitution => trivial

/-- A text that the scan passes over without a finding, and without an open bracket at its end. -/
theorem attempt_of_reaches {text : List Char} (hplain : text.head? ≠ some '#') {last : State} {offset : Nat}
    (h : Place.Reaches ⟨{}, 0, text⟩ [] ⟨last, offset, []⟩) (hframes : last.frames = []) (goal : Goal) :
    probe.attempt (Utf8.encode text) goal = .ok () := by
  have hstart : ¬ ['#', '!'] <+: text := by
    rintro ⟨rest, rfl⟩
    exact hplain rfl
  have hend : Place.scan ⟨last, offset, []⟩ = ⟨[], none⟩ := by
    rw [Place.scan, scanFrom, State.unclosed?, hframes]
    rfl
  have hscan : scan text = ⟨[], none⟩ := by
    rw [← Place.scan_start, Place.start_of_plain hstart, h.scan, hend]
    rfl
  rw [probe_encode, judge_eq_ok_iff, Scan.violation?_eq_none_iff, hscan]
  exact ⟨rfl, rfl⟩

/-- Whether a text is an expression. -/
def IsExpression (text : List Char) : Prop := ∃ numeric, Spells (.expression numeric) text

/-- Keywords of statements that have a head, but for the one that is no part of strict code. -/
def headWords : List String := ["if", "while", "for", "switch", "catch"]

/-- A statement that tests an expression with a regular expression, behind the head of another statement. -/
def testStatement (keyword : String) (head regex subject : List Char) : List Char :=
  keyword.toList ++ ' ' :: '(' :: (head ++ ')' :: ' ' ::
    (regex ++ ".test".toList ++ '(' :: (subject ++ [')']) ++ [';']))

/-- The state at the start of a text. -/
theorem awaitsOperand_start : State.AwaitsOperand {} where
  classDepth := rfl
  arrowDepths := rfl
  regexAllowed := rfl
  afterPoint := rfl
  controlNext := rfl

/-- The parenthesis that closes a head is not the end of an operand. -/
theorem reaches_head {keyword : String} (hkeyword : keyword ∈ headWords) {head : List Char}
    (hhead : IsExpression head) (rest : List Char) : ∃ offset,
    Place.Reaches ⟨{}, 0, keyword.toList ++ ' ' :: '(' :: (head ++ ')' :: ' ' :: rest)⟩ []
      ⟨State.afterToken {} (.punctuator ')'), offset, rest⟩ := by
  have hwords : ∀ k ∈ headWords, k.toList ≠ [] ∧ k.toList.all Char.isAlpha = true ∧
      k ≠ "import" ∧ k ≠ "export" ∧ k ≠ "with" ∧ k ≠ "await" ∧ k ≠ "let" ∧ k ≠ "class" ∧
      k ∉ strictWords ∧ k ∈ controlWords := by
    decide
  obtain ⟨hne, hletters, himport, hexport, hwith, hawait, hlet, hclass, hstrict, hcontrol⟩ :=
    hwords keyword hkeyword
  obtain ⟨numeric, hhead⟩ := hhead
  let behind := ' ' :: '(' :: (head ++ ')' :: ' ' :: rest)
  have hfree : State.restriction? {} keyword behind = none := by
    rw [State.restriction?, if_neg himport, if_neg hexport, if_neg hwith, if_neg hawait, if_neg hlet,
      if_neg fun h => hstrict (List.contains_iff_mem.1 h.1)]
  have hafter : State.afterWord {} keyword =
      { State.afterToken {} (.word keyword) with controlNext := true } := by
    simp [State.afterWord, State.afterPoint, State.opensHead, hcontrol, hclass, State.afterToken]
  have hbehind : ∀ c ∈ behind.head?, isWordPart c = false := by
    rintro c ⟨⟩
    decide
  rw [← String.ofList_toList (s := keyword)] at hfree
  obtain ⟨offset, hword⟩ := Place.step_word 0 hne (List.all_eq_true.1 hletters) hbehind (.inr hfree)
  rw [String.ofList_toList, hafter] at hword
  have hsettled : State.IsSettled { State.afterToken {} (.word keyword) with controlNext := true } := ⟨rfl, rfl⟩
  obtain ⟨offset', henclosed⟩ := reaches_enclosed (isScanned_items hhead.isScanned) hsettled (d := .round)
    (by decide) .controlHead rfl rfl (offset + 1) (' ' :: rest)
  exact ⟨offset' + 1, .step hword (.step (Place.step_blank _ offset _)
    (henclosed.trans (.single (Place.step_blank _ offset' rest))))⟩

/--
The probe accepts every expression under either goal, and every regular expression behind the head of a
statement.
-/
theorem attempt_expression (goal : Goal) :
    (∀ text, IsExpression text → probe.attempt (Utf8.encode text) goal = .ok ()) ∧
      ∀ keyword ∈ headWords, ∀ head regex subject, IsExpression head → IsRegex regex → IsExpression subject →
        probe.attempt (Utf8.encode (testStatement keyword head regex subject)) goal = .ok () := by
  constructor
  · rintro text ⟨numeric, htext⟩
    obtain ⟨token, offset, -, hreaches⟩ :=
      htext.isScanned {} 0 [] awaitsOperand_start (by rintro c ⟨⟩)
    rw [List.append_nil] at hreaches
    obtain ⟨c, more, rfl, hc⟩ := htext.exists_cons
    exact attempt_of_reaches (by simpa using hc) hreaches rfl goal
  · rintro keyword hkeyword head regex subject hhead hregex ⟨numeric, hsubject⟩
    have hmember : Spells (.expression false) (regex ++ ".test".toList) :=
      .member (.regex hregex) ⟨by decide, List.all_eq_true.1 (by decide)⟩ (by decide)
    have hcall : Spells (.expression false) (regex ++ ".test".toList ++ '(' :: (subject ++ [')'])) :=
      .call hmember (.lastItem hsubject)
    obtain ⟨offset, hbefore⟩ := reaches_head hkeyword hhead
      (regex ++ ".test".toList ++ '(' :: (subject ++ [')']) ++ [';'])
    have hawaits : (State.afterToken {} (.punctuator ')')).AwaitsOperand :=
      awaitsOperand_start.toIsSettled.awaitsOperand _ rfl (by decide)
    obtain ⟨token, offset', -, htest⟩ := hcall.isScanned _ offset [';'] hawaits (follows_cons (by decide) [])
    obtain ⟨offset'', hsemicolon⟩ := Place.step_sign offset' []
      (hawaits.toIsSettled.afterToken token) (c := ';') rfl
    have hwords : ∀ k ∈ headWords, k.toList ≠ [] ∧ k.toList.head? ≠ some '#' := by decide
    have hplain : (testStatement keyword head regex subject).head? ≠ some '#' := by
      rw [testStatement, List.head?_append_of_ne_nil _ (hwords keyword hkeyword).1]
      exact (hwords keyword hkeyword).2
    exact attempt_of_reaches hplain (hbefore.trans (htest.trans (.single hsemicolon))) rfl goal

/-- A template that goes on behind a division, a call, and a regular expression. -/
theorem attempt_expression_of_template :
    probe.attempt (Utf8.encode "\x60a$\x7bb++ / 2\x7d\x60 / c(d[0], /x/g)".toList) .script = .ok () ∧
      probe.attempt (Utf8.encode (testStatement "while" "b++ / 2".toList "/x/g".toList
        "\x60a$\x7bb++ / 2\x7d\x60 / c(d[0], /x/g)".toList)) .module = .ok () := by
  have hidentifier (c : Char) (hc : c.isAlpha = true) (hmarked : String.ofList [c] ∉ markedWords) :
      IsIdentifier [c] := ⟨⟨List.cons_ne_nil _ _, by simpa using hc⟩, hmarked⟩
  have hnumber (c : Char) (hc : c.isDigit = true) : IsDecimal [c] :=
    ⟨c, [], [], [], rfl, hc, by simp, fun _ => rfl, .inl rfl, .inl rfl⟩
  have hregex : IsRegex "/x/g".toList :=
    ⟨['g'], ['x'], rfl, by simp [LiteralKind.Plain], by simp⟩
  have hdivision : Spells (.expression true) "b++ / 2".toList :=
    .update (hidentifier 'b' rfl (by decide)) (.number (hnumber '2' rfl))
  have hbefore : (LiteralKind.template .hole).Plain ['a'] := by simp [LiteralKind.Plain]
  have hbehind : (LiteralKind.template .close).Plain [] := nofun
  have htemplate : Spells (.expression false) "\x60a$\x7bb++ / 2\x7d\x60".toList :=
    .template (.substitution hbefore hdivision (.lastStretch hbehind))
  have hindex : Spells (.expression false) "d[0]".toList :=
    .index (.identifier (hidentifier 'd' rfl (by decide))) (.number (hnumber '0' rfl))
  have hquotient : IsExpression "\x60a$\x7bb++ / 2\x7d\x60 / c(d[0], /x/g)".toList :=
    ⟨false, .quotient htemplate (.call (.identifier (hidentifier 'c' rfl (by decide)))
      (.moreItems hindex (.lastItem (.regex hregex))))⟩
  exact ⟨(attempt_expression .script).1 _ hquotient,
    (attempt_expression .module).2 "while" (by decide) _ _ _ ⟨true, hdivision⟩ hregex hquotient⟩

end ParseGoal.Ecma
