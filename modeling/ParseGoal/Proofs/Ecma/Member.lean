import ParseGoal.Proofs.Ecma.Operand

/-!
Words behind a point. A scan runs into nothing at such a word, but it remembers the word as its last token,
and what comes next may ask for it. Two words are the same there exactly if they answer alike.
-/
namespace ParseGoal.Ecma

/--
What is asked of the last token if it is a word: whether a regular expression may follow, whether it starts a
loop, and whether it declares a name.
-/
def traits (word : String) : Bool × Bool × Bool :=
  (regexWords.contains word, word == "for", word == "var" || word == "function")

/-- The state with a word as the last token. -/
def State.recalling (s : State) (word : String) : State := { s with previous := some (.word word) }

section

variable {v w : String} (h : traits v = traits w) (s : State)

include h

theorem eq_for_iff : v = "for" ↔ w = "for" := by
  have hsame : (v == "for") = (w == "for") := congrArg (·.2.1) h
  rw [← beq_iff_eq, hsame, beq_iff_eq]

theorem declares_iff : v = "var" ∨ v = "function" ↔ w = "var" ∨ w = "function" := by
  have hsame : (v == "var" || v == "function") = (w == "var" || w == "function") := congrArg (·.2.2) h
  rw [Bool.eq_iff_iff] at hsame
  simpa only [Bool.or_eq_true, beq_iff_eq] using hsame

theorem State.context_recalling : (s.recalling v).context = (s.recalling w).context := by
  have hregex : regexWords.contains v = regexWords.contains w := congrArg Prod.fst h
  rw [State.context, State.context, recalling, recalling, regexAfter, regexAfter, hregex]

theorem State.restriction?_recalling (word : String) (rest : List Char) :
    (s.recalling v).restriction? word rest = (s.recalling w).restriction? word rest := by
  have hbinding : (s.recalling v).namesBinding rest = (s.recalling w).namesBinding rest := rfl
  have hfunction : (s.recalling v).inFunction = (s.recalling w).inFunction := rfl
  have hstatement : (s.recalling v).atStatementStart = (s.recalling w).atStatementStart := rfl
  have hprevious (u : String) : (s.recalling u).previous = some (.word u) := rfl
  simp only [State.restriction?, hbinding, hfunction, hstatement, hprevious, Option.some.injEq,
    Token.word.injEq, eq_for_iff h, declares_iff h]

theorem State.afterWord_recalling (word : String) :
    (s.recalling v).afterWord word = (s.recalling w).afterWord word := by
  have hhead : (s.recalling v).opensHead word = (s.recalling w).opensHead word := by
    rw [opensHead, opensHead, Bool.eq_iff_iff]
    simp only [recalling, Bool.or_eq_true, Bool.and_eq_true, beq_iff_eq, Option.some.injEq,
      Token.word.injEq, eq_for_iff h]
  have hpoint (u : String) : (s.recalling u).afterPoint = false := rfl
  simp only [State.afterWord, hpoint, hhead]
  rfl

omit h in
theorem State.takeOpener_recalling (start : Nat) (d : Delimiter) :
    (s.recalling v).takeOpener start d = (s.recalling w).takeOpener start d := by
  have henclosure : (s.recalling v).enclosureOf d = (s.recalling w).enclosureOf d := by
    cases d with
    | round | square => rfl
    | curly => simp [enclosureOf, recalling, depth]
  rw [takeOpener, takeOpener, henclosure]
  split <;> rfl

/--
What a lexeme does depends on the last token's word by what is asked of it. After blanks and comments, that
word is still the last token.
-/
theorem State.take_recalling (start : Nat) (lexeme : Lexeme) (rest : List Char) :
    (∃ found next, ∀ word,
        (s.recalling word).take start lexeme rest = ⟨found, .ok (State.recalling next word)⟩) ∨
      (s.recalling v).take start lexeme rest = (s.recalling w).take start lexeme rest := by
  cases lexeme with
  | lineBreak => exact .inl ⟨_, s.afterNewline, fun _ => rfl⟩
  | blank | lineComment | htmlComment => exact .inl ⟨_, s, fun _ => rfl⟩
  | blockComment multiline =>
    cases multiline with
    | false => exact .inl ⟨_, s, fun _ => rfl⟩
    | true => exact .inl ⟨_, s.afterNewline, fun _ => rfl⟩
  | word text =>
    refine .inr ?_
    have hpoint (u : String) : (s.recalling u).afterPoint = false := rfl
    simp only [State.take, hpoint, s.restriction?_recalling h, s.afterWord_recalling h]
  | opener d => exact .inr (by rw [State.take, State.take, s.takeOpener_recalling])
  | template stop | templateTail stop =>
    obtain _ | _ | _ := stop
    all_goals exact .inr rfl
  | arrow =>
    refine .inr ?_
    simp only [State.take]
    split <;> rfl
  | punctuator c =>
    refine .inr ?_
    simp only [State.take]
    split <;> rfl
  | _ => exact .inr rfl

/-- Words that answer alike are the same for all that follows. -/
theorem scanFrom_recalling (offset : Nat) (text : List Char) :
    scanFrom (s.recalling v) offset text = scanFrom (s.recalling w) offset text := by
  induction hlength : text.length using Nat.strong_induction_on generalizing s offset text with
  | _ n ih =>
    cases text with
    | nil =>
      rw [scanFrom, scanFrom]
      rfl
    | cons c rest =>
      have hshorter := cut_rest_length (s.recalling v).context c rest
      rw [scanFrom, scanFrom, ← s.context_recalling h]
      generalize cut (s.recalling v).context c rest = piece at hshorter
      obtain ⟨found, next, htake⟩ | htake := s.take_recalling h offset piece.lexeme piece.rest
      · have hlater := ih _ (hlength ▸ hshorter) next (offset + Text.byteSize piece.text) piece.rest rfl
        simp only [htake, hlater]
      · rw [htake]

end

section

variable {v w : String} {before rest : List Char} {s : State} {found : List Finding}

theorem isDigit_of_isIdentifierStart {c : Char} (hc : isIdentifierStart c = true) : c.isDigit = false := by
  simp only [isIdentifierStart, Bool.or_eq_true, beq_iff_eq] at hc
  rcases hc with ((hletter | rfl) | rfl) | rfl
  · exact isDigit_of_isAlpha hletter
  all_goals rfl

namespace Place

/-- A point in front of a word is no number. -/
theorem step_point (hv : isWord v = true) (hrest : ∀ c ∈ rest.head?, isWordPart c = false) (s : State)
    (offset : Nat) :
    Step ⟨s, offset, '.' :: (v.toList ++ rest)⟩ []
      ⟨s.afterToken (.punctuator '.'), offset + 1, v.toList ++ rest⟩ := by
  obtain ⟨c, more, htext, hstart, -⟩ := exists_cut_of_isWord hv hrest s.context
  have hcut : cut s.context '.' (v.toList ++ rest) = ⟨.punctuator '.', ['.'], v.toList ++ rest⟩ := by
    rw [cut_sign s.context (by decide), htext]
    simp [isDigit_of_isIdentifierStart hstart]
  exact .intro hcut rfl

/-- Behind a point, a word runs into nothing. -/
theorem step_member (hv : isWord v = true) (hrest : ∀ c ∈ rest.head?, isWordPart c = false)
    (hpoint : s.afterPoint = true) (offset : Nat) :
    Step ⟨s, offset, v.toList ++ rest⟩ []
      ⟨s.afterToken (.word v), offset + Text.byteSize v.toList, rest⟩ := by
  obtain ⟨c, more, htext, -, hcut⟩ := exists_cut_of_isWord hv hrest s.context
  have htake : s.take offset (.word v) rest = ⟨[], .ok (s.afterToken (.word v))⟩ := by
    rw [State.take, State.afterWord, if_pos hpoint, if_pos hpoint]
    rfl
  rw [htext]
  exact .intro hcut htake

end Place

/-- What comes before a point does not look behind it. -/
theorem junction_point (text other : List Char) :
    Junction ('.' :: text) ('.' :: other) ('.' :: other) 0 :=
  .of_visible (fun before => .append_barrier (by decide) before text other) (by decide) (by decide) rfl

/--
Another property name that answers alike changes no verdict: what fails does so for the same reason, at the same
place or as far behind the name.
-/
theorem attempt_member (htraits : traits v = traits w) (hv : isWord v = true) (hw : isWord w = true)
    (hrest : ∀ c ∈ rest.head?, isWordPart c = false)
    (h : Place.Reaches (Place.start (before ++ '.' :: (v.toList ++ rest))) found
      ⟨s, Text.byteSize before, '.' :: (v.toList ++ rest)⟩) (goal : Goal) :
    (probe.attempt (Utf8.encode (before ++ '.' :: (w.toList ++ rest))) goal : Verdict).mapError
        (fun failure => (failure.position.offset, failure.reason)) =
      (probe.attempt (Utf8.encode (before ++ '.' :: (v.toList ++ rest))) goal : Verdict).mapError
        fun failure => (pastReplacement (Text.byteSize before + 1) (Text.byteSize v.toList)
          (Text.byteSize w.toList) failure.position.offset, failure.reason) := by
  let point : State := s.afterToken (.punctuator '.')
  have hsize : Text.byteSize before + 1 = Text.byteSize (before ++ ['.']) :=
    (Text.byteSize_append before ['.']).symm
  have hpoint := Place.step_point hv hrest s (Text.byteSize before)
  have hmember := Place.step_member (s := point) hv hrest rfl (Text.byteSize (before ++ ['.']))
  obtain ⟨last, hlast, hreaches⟩ := h.splice_start (junction_point _ (w.toList ++ rest)) nofun rfl
  obtain ⟨last, hlast, hpoint'⟩ := (Place.step_point hw hrest s (Text.byteSize before)).embeds hlast
  obtain ⟨next, hnext, hmember'⟩ := (Place.step_member (s := point) hw hrest rfl
    (Text.byteSize (before ++ ['.']))).embeds hlast
  rw [hsize] at hpoint hpoint'
  have hbefore := h.trans (.single hpoint)
  have hbefore' := hreaches.trans (.single hpoint')
  rw [List.append_nil, List.append_cons before '.'] at hbefore hbefore'
  rw [List.append_cons before '.' (v.toList ++ rest), List.append_cons before '.' (w.toList ++ rest), hsize]
  refine attempt_replace hbefore hbefore' hmember hmember' (fun offset => ?_) goal
  calc scanFrom next offset rest
      _ = scanFrom (point.afterToken (.word w)) offset rest := scanFrom_of_embeds hnext offset rest
      _ = scanFrom (point.afterToken (.word v)) offset rest :=
        scanFrom_recalling htraits.symm (point.afterToken (.word v)) offset rest

end

/-! What tells words behind a point apart. -/

/-- A word for each answer. -/
def representatives : List String := ["return", "for", "var", "b"]

/-- Texts behind a word that show what it answers. -/
def touchstones : List (List Char) := [" /b".toList, " await".toList, " let".toList]

theorem exists_representative (word : String) : ∃ u ∈ representatives, traits word = traits u := by
  by_cases hregex : word ∈ regexWords
  · have hsame : ∀ word ∈ regexWords, traits word = traits "return" := by decide
    exact ⟨"return", by decide, hsame word hregex⟩
  by_cases hfor : word = "for"
  · exact ⟨"for", by decide, by rw [hfor]⟩
  by_cases hname : word = "var" ∨ word = "function"
  · exact ⟨"var", by decide, by rcases hname with rfl | rfl <;> decide⟩
  · have hnone : traits "b" = (false, false, false) := by decide
    refine ⟨"b", by decide, hnone ▸ ?_⟩
    obtain ⟨hvar, hfunction⟩ := not_or.1 hname
    simp [traits, hregex, hfor, hvar, hfunction]

theorem traits_eq_of_outcome : ∀ u ∈ representatives, ∀ u' ∈ representatives,
    (∀ rest ∈ touchstones, ∀ goal, outcome ("a.".toList ++ (u.toList ++ rest)) goal =
      outcome ("a.".toList ++ (u'.toList ++ rest)) goal) → traits u = traits u' := by
  have hscan : ∀ u ∈ representatives, ∀ u' ∈ representatives,
      (∀ rest ∈ touchstones, ∀ goal ∈ [.script, .module],
        ((scan ("a.".toList ++ (u.toList ++ rest))).violation? goal).isNone =
          ((scan ("a.".toList ++ (u'.toList ++ rest))).violation? goal).isNone) → traits u = traits u' := by
    decide +kernel
  intro u hu u' hu' houtcome
  exact hscan u hu u' hu' fun rest hrest goal _ => isNone_violation?_of_outcome (houtcome rest hrest goal)

/--
One property name may stand for another in all texts exactly if the two answer alike: the texts fail for the same
reason then, or not at all.
-/
theorem outcome_member_iff {v w : String} (hv : isWord v = true) (hw : isWord w = true) :
    (∀ {before rest : List Char} {s : State} {found : List Finding},
      (∀ c ∈ rest.head?, isWordPart c = false) →
      Place.Reaches (Place.start (before ++ '.' :: (v.toList ++ rest))) found
        ⟨s, Text.byteSize before, '.' :: (v.toList ++ rest)⟩ →
      ∀ goal, outcome (before ++ '.' :: (w.toList ++ rest)) goal =
        outcome (before ++ '.' :: (v.toList ++ rest)) goal) ↔
      traits v = traits w := by
  constructor
  · intro hsame
    have hreaches (text : List Char) : Place.Reaches (Place.start (['a'] ++ '.' :: text)) []
        ⟨State.afterWord {} "a", Text.byteSize ['a'], '.' :: text⟩ := .single (.intro rfl rfl)
    have hstops : ∀ rest ∈ touchstones, rest.head?.all (!isWordPart ·) = true := by decide
    obtain ⟨u, hu, htraits⟩ := exists_representative v
    obtain ⟨u', hu', htraits'⟩ := exists_representative w
    have hwords : ∀ u ∈ representatives, isWord u = true := by decide
    rw [htraits, htraits']
    refine traits_eq_of_outcome u hu u' hu' fun rest hrest goal => ?_
    have hstop : ∀ c ∈ rest.head?, isWordPart c = false := by
      simpa [Option.all_eq_true] using hstops rest hrest
    calc outcome (['a'] ++ '.' :: (u.toList ++ rest)) goal
        _ = outcome (['a'] ++ '.' :: (v.toList ++ rest)) goal :=
          outcome_eq_of_attempt (attempt_member htraits hv (hwords u hu) hstop (hreaches _) goal)
        _ = outcome (['a'] ++ '.' :: (w.toList ++ rest)) goal := (hsame hstop (hreaches _) goal).symm
        _ = outcome (['a'] ++ '.' :: (u'.toList ++ rest)) goal :=
          (outcome_eq_of_attempt (attempt_member htraits' hw (hwords u' hu') hstop (hreaches _) goal)).symm
  · intro htraits before rest s found hrest hreaches goal
    exact outcome_eq_of_attempt (attempt_member htraits hv hw hrest hreaches goal)

/-- A name like a statement's keyword is nothing special in front of a slash. -/
theorem outcome_member_iff_of_if : isWord "if" = true ∧ isWord "foo" = true ∧
    outcome "a.foo /b;".toList .script = outcome "a.if /b;".toList .script := by
  have hreaches : Place.Reaches (Place.start (['a'] ++ '.' :: ("if".toList ++ " /b;".toList))) []
      ⟨State.afterWord {} "a", Text.byteSize ['a'], '.' :: ("if".toList ++ " /b;".toList)⟩ :=
    .single (.intro rfl rfl)
  have hstop : ∀ c ∈ " /b;".toList.head?, isWordPart c = false := by
    rintro c ⟨⟩
    decide
  refine ⟨by decide, by decide, ?_⟩
  exact (outcome_member_iff (v := "if") (w := "foo") (by decide) (by decide)).2 (by decide)
    hstop hreaches .script

/-- A name like a keyword in front of operands is: the slash behind it starts a regular expression. -/
theorem outcome_member_of_return :
    (∃ s found, Place.Reaches (Place.start (['a'] ++ '.' :: ("return".toList ++ " /b;".toList))) found
      ⟨s, Text.byteSize ['a'], '.' :: ("return".toList ++ " /b;".toList)⟩) ∧
      outcome (['a'] ++ '.' :: ("return".toList ++ " /b;".toList)) .script =
        .error "unterminated regular expression literal" ∧
      outcome (['a'] ++ '.' :: ("foo".toList ++ " /b;".toList)) .script = .ok () := by
  have haccepted : (scan (['a'] ++ '.' :: ("foo".toList ++ " /b;".toList))).violation? .script = none := by
    decide +kernel
  have hrejected : (scan (['a'] ++ '.' :: ("return".toList ++ " /b;".toList))).violation? .script =
      some ⟨9, .fault .openRegex⟩ := by
    decide +kernel
  refine ⟨⟨State.afterWord {} "a", [], .single (.intro rfl rfl)⟩, ?_, ?_⟩
  · rw [outcome_eq, hrejected]
    rfl
  · rw [outcome_eq, haccepted]

end ParseGoal.Ecma
