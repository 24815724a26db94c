import ParseGoal.Proofs.Ecma.Opacity

/-!
Blanks that end no line. One may stand for another exactly where the last token, if it looks ahead,
passes over both of them or over neither. Not every blank is passed over: what stands next is looked
for behind blanks in ASCII alone, and an operand behind spaces and tabs alone.
-/
namespace ParseGoal.Ecma

/-- Blanks that end no line. -/
def isSpace (c : Char) : Bool :=
  isInlineBlank c ||
    (0x80 ≤ c.toNat && (Text.isBlank c || c == '\ufeff') && c != '\u2028' && c != '\u2029')

/-- Whether a token that looks ahead passes over a blank. -/
def Token.passesOver (token : Token) (c : Char) : Bool :=
  if token.asksNext then isInlineBlank c
  else if token.asksOperand then c == ' ' || c == '\t'
  else true

/-! Blanks are lexemes of their own. -/

variable {c d : Char}

theorem cut_space (hc : isSpace c = true) (context : Context) (rest : List Char) :
    cut context c rest = ⟨.blank, [c], rest⟩ := by
  by_cases hblank : isInlineBlank c = true
  · have hline : c ≠ '\n' := by
      rintro rfl
      exact absurd hblank (by decide)
    rw [cut, if_neg hline, if_pos hblank]
  · simp only [isSpace, hblank, Bool.false_or, Bool.and_eq_true, Bool.or_eq_true, decide_eq_true_eq,
      beq_iff_eq, bne_iff_ne] at hc
    obtain ⟨⟨⟨hwide, hblank⟩, hline⟩, hparagraph⟩ := hc
    rw [cut_wide hwide, cutWide, if_neg (not_or.2 ⟨hline, hparagraph⟩), if_pos hblank]

/-- Only they are taken as blanks. -/
theorem lexeme_eq_blank_iff {context : Context} {rest : List Char} :
    (cut context c rest).lexeme = .blank ↔ isSpace c = true := by
  refine ⟨?_, fun hc => by rw [cut_space hc]⟩
  fun_cases cut context c rest with
  | case2 _ hblank => exact fun _ => by rw [isSpace, hblank, Bool.true_or]
  | case3 => fun_cases cutSlash context rest <;> rintro ⟨⟩
  | case6 =>
    rw [cutString]
    split <;> rintro ⟨⟩
  | case7 | case8 =>
    rw [cutTemplate]
    split <;> rintro ⟨⟩
  | case16 =>
    rw [cutWide]
    split_ifs
    · rintro ⟨⟩
    · simp_all [isSpace]
    · rintro ⟨⟩
    · rintro ⟨⟩
  | _ => rintro ⟨⟩

/-- Stretches of code points without letters and numerals. All blanks beyond ASCII are in them. -/
def gaps : List (Nat × Nat) :=
  [(0x85, 0x85), (0xA0, 0xA0), (0x1680, 0x1680), (0x2000, 0x205F), (0x3000, 0x3000), (0xFEFF, 0xFEFF)]

theorem exists_gap (hc : isSpace c = true) (hblank : isInlineBlank c = false) :
    ∃ gap ∈ gaps, gap.1 ≤ c.toNat ∧ c.toNat ≤ gap.2 := by
  simp only [isSpace, hblank, Bool.false_or, Bool.and_eq_true, Bool.or_eq_true, decide_eq_true_eq,
    beq_iff_eq] at hc
  simp only [gaps, List.exists_mem_cons_iff, List.not_mem_nil, false_and, exists_false, or_false]
  obtain ⟨⟨⟨hwide, hblank | rfl⟩, -⟩, -⟩ := hc
  · simp only [Text.isBlank, Bool.or_eq_true, Bool.and_eq_true, decide_eq_true_eq, beq_iff_eq] at hblank
    omega
  · decide

/-- Whether a stretch of code points lies between the ranges. -/
def isApart (ranges : List (Nat × Nat)) (gap : Nat × Nat) : Bool :=
  ranges.all fun range => range.2.blt gap.1 || gap.2.blt range.1

theorem inRanges_of_isApart {ranges : List (Nat × Nat)} {gap : Nat × Nat} {n : Nat}
    (h : isApart ranges gap = true) (hfirst : gap.1 ≤ n) (hlast : n ≤ gap.2) :
    Text.inRanges n ranges = false := by
  refine List.any_eq_false.2 fun range hrange => ?_
  have hapart := List.all_eq_true.1 h range hrange
  simp only [Bool.or_eq_true, Nat.blt_eq] at hapart
  simp only [Bool.and_eq_true, decide_eq_true_eq, not_and]
  omega

theorem isAlphanumeric_eq_false_of_space (hc : isSpace c = true) (hblank : isInlineBlank c = false) :
    Text.isAlphanumeric c = false := by
  have hapart : ∀ gap ∈ gaps, isApart Text.alphabeticRanges gap = true ∧
      isApart Text.numericRanges gap = true ∧ 0x80 ≤ gap.1 := by
    decide +kernel
  obtain ⟨gap, hgap, hfirst, hlast⟩ := exists_gap hc hblank
  obtain ⟨halphabetic, hnumeric, hwide⟩ := hapart gap hgap
  have hpart : ¬ isIdentifierPart c = true := fun h =>
    absurd (toNat_lt_of_isIdentifierPart h) (Nat.not_lt.2 (hwide.trans hfirst))
  simp only [isIdentifierPart, isIdentifierStart, Bool.or_eq_true, not_or, Bool.not_eq_true] at hpart
  simp [Text.isAlphanumeric, Text.isAlphabetic, hpart, inRanges_of_isApart halphabetic hfirst hlast,
    inRanges_of_isApart hnumeric hfirst hlast]

/-- A blank ends all words, and looking ahead that does not pass over it stops without a word. -/
theorem isSpace_inert (hc : isSpace c = true) :
    isInert c = true ∧ c ∉ asked ∧ c ∉ ['\n', '/', '#'] ∧
      isIdentifierStart c = false ∧
      (c.isDigit || c == '\'' || c == '"' || c == '!' || c == '~') = false := by
  by_cases hblank : isInlineBlank c = true
  · simp only [isInlineBlank, Bool.or_eq_true, beq_iff_eq] at hblank
    rcases hblank with (((rfl | rfl) | rfl) | rfl) | rfl <;> decide
  · have hwide : 0x80 ≤ c.toNat := by
      simp only [isSpace, hblank, Bool.false_or, Bool.and_eq_true, decide_eq_true_eq] at hc
      exact hc.1.1.1
    have hne (d : Char) (hd : d.toNat < 0x80) : c ≠ d := by
      rintro rfl
      exact absurd hd (Nat.not_lt.2 hwide)
    have hword : isWordPart c = false := by
      rw [isWordPart, if_neg (Nat.not_lt.2 hwide), isAlphanumeric_eq_false_of_space hc (Bool.eq_false_iff.2 hblank)]
    have hpart : ¬ isIdentifierPart c = true := fun h => by
      rw [isWordPart_of_isIdentifierPart h] at hword
      cases hword
    obtain ⟨hstart, hdigit⟩ : isIdentifierStart c = false ∧ c.isDigit = false := by
      simpa [isIdentifierPart] using hpart
    simp [isInert, asked, hword, hstart, hdigit, hne]

/-! Looking ahead from in front of a blank. -/

theorem nextSignificant_space (hc : isSpace c = true) (post : List Char) :
    nextSignificant (c :: post) = if isInlineBlank c then nextSignificant post else some c := by
  obtain ⟨-, -, hnone, -⟩ := isSpace_inert hc
  simp only [List.mem_cons, List.not_mem_nil, or_false, not_or] at hnone
  by_cases hblank : isInlineBlank c = true
  · rw [if_pos hblank, nextSignificant_blank (.inr hblank)]
  · rw [if_neg hblank, nextSignificant_visible (not_or.2 ⟨hnone.1, hblank⟩) hnone.2.1]

theorem operandFollows_space (hc : isSpace c = true) (post : List Char) :
    operandFollows (c :: post) = ((c == ' ' || c == '\t') && operandFollows post) := by
  obtain ⟨-, -, hnone, hword, hoperand⟩ := isSpace_inert hc
  simp only [List.mem_cons, List.not_mem_nil, or_false, not_or] at hnone
  cases hblank : c == ' ' || c == '\t' with
  | true =>
    rw [operandFollows_blank (by simpa using hblank), Bool.true_and]
  | false =>
    rw [operandFollows_visible (by simpa using hblank) hnone.2.1, hword, hoperand]
    rfl

theorem asksNext_of_asksOperand {token : Token} (h : token.asksOperand = true) : token.asksNext = false := by
  cases token with
  | word text =>
    obtain rfl : text = "await" := by simpa [Token.asksOperand] using h
    decide
  | _ => cases h

/-- A token that passes over both or neither of two blanks sees the same behind them. -/
theorem alikeAfter_space (hc : isSpace c = true) (hd : isSpace d = true) {previous : Option Token}
    (h : ∀ token ∈ previous, token.passesOver c = token.passesOver d) (post : List Char) :
    AlikeAfter previous (c :: post) (d :: post) where
  next hasks := by
    obtain ⟨token, htoken, hasks⟩ := (Option.any_eq_true ..).1 hasks
    have hsame : isInlineBlank c = isInlineBlank d := by
      simpa only [Token.passesOver, if_pos hasks] using h token htoken
    intro e he
    rw [nextSignificant_space hc, nextSignificant_space hd, hsame]
    split
    · exact .rfl
    · have hne {b : Char} (hb : isSpace b = true) : b ≠ e := by
        rintro rfl
        exact (isSpace_inert hb).2.1 he
      simp [hne hc, hne hd]
  operand hasks := by
    obtain ⟨token, htoken, hasks⟩ := (Option.any_eq_true ..).1 hasks
    have hsame : (c == ' ' || c == '\t') = (d == ' ' || d == '\t') := by
      simpa [Token.passesOver, asksNext_of_asksOperand hasks, hasks] using h token htoken
    rw [operandFollows_space hc, operandFollows_space hd, hsame]

section

variable {pre post : List Char} {s : State} {found : List Finding}

/-- A blank changes nothing that a scan remembers. -/
theorem Place.Step.space (hc : isSpace c = true) (s : State) (offset : Nat) (post : List Char) :
    Step ⟨s, offset, c :: post⟩ [] ⟨s, offset + Text.byteSize [c], post⟩ :=
  .intro (cut_space hc s.context post) rfl

theorem landing_space (hc : isSpace c = true) (hd : isSpace d = true) (post : List Char) :
    Landing (c :: post) (d :: post) (d :: post) 0 where
  covers before := .append before _ (isSpace_inert hd).1 post
  lands s offset := .refl _
  line hline := by
    have hne : c ≠ '\n' := fun h => (isSpace_inert hc).2.2.1 (by simp [h])
    simp [lineText, hne] at hline

/--
Another blank changes no verdict if the last token passes over both or over neither: what fails does so
for the same reason, at the same place or as far behind the blank.
-/
theorem attempt_space
    (h : Place.Reaches (Place.start (pre ++ c :: post)) found ⟨s, Text.byteSize pre, c :: post⟩)
    (hc : isSpace c = true) (hd : isSpace d = true)
    (hpasses : ∀ token ∈ s.previous, token.passesOver c = token.passesOver d) (goal : Goal) :
    (probe.attempt (Utf8.encode (pre ++ d :: post)) goal : Verdict).mapError
        (fun failure => (failure.position.offset, failure.reason)) =
      (probe.attempt (Utf8.encode (pre ++ c :: post)) goal : Verdict).mapError
        fun failure => (pastReplacement (Text.byteSize pre) (Text.byteSize [c]) (Text.byteSize [d])
          failure.position.offset, failure.reason) := by
  have halike := alikeAfter_space hc hd hpasses post
  have hhash : (d :: post).head? ≠ some '#' := by
    have hne : d ≠ '#' := fun h => (isSpace_inert hd).2.2.1 (by simp [h])
    simpa using hne
  obtain ⟨last, hlast, hreaches⟩ := h.splice_start_after (landing_space hc hd post) halike halike hhash rfl
  exact @attempt_replace pre [c] [d] post s last s last found h hreaches (.space hc s _ post)
    (.space hd last _ post) (fun offset => scanFrom_of_embeds hlast offset post) goal

end

/-! A token that passes over one of two blanks alone tells them apart. -/

/-- Words that look ahead. -/
def askingWords : List String := ["import", "with", "await"] ++ strictWords

/-- Tokens that look ahead. -/
def askingTokens : List Token := .arrow :: askingWords.map .word

/-- How such a token is written. -/
def Token.written : Token → List Char
  | .word text => text.toList
  | _ => ['=', '>']

/-- The lexeme it is. -/
def Token.lexeme : Token → Lexeme
  | .word text => .word text
  | _ => .arrow

/-- What shows behind a blank, under a goal, whether the token in front of the blank has passed over it. -/
def Token.touchstone : Token → List Char × Goal
  | .word text =>
    if text = "import" then ("(x)".toList, .script)
    else if text = "with" then ("(x)".toList, .module)
    else if text = "await" then (['x'], .script)
    else ([':'], .module)
  | _ => ("\x7b\x7d await x".toList, .script)

theorem mem_askingTokens {token : Token} (h : token.asksNext = true ∨ token.asksOperand = true) :
    token ∈ askingTokens := by
  cases token with
  | word text =>
    simp only [Token.asksNext, Token.asksOperand, Bool.or_eq_true, beq_iff_eq,
      List.contains_iff_mem] at h
    simp only [askingTokens, askingWords, List.map_append, List.mem_cons, List.mem_append, List.mem_map,
      Token.word.injEq, exists_eq_right]
    tauto
  | arrow => exact List.mem_cons_self
  | _ => simp [Token.asksNext, Token.asksOperand] at h

/-- At the start of a text, such a token is the last one in front of a blank. -/
theorem reaches_asking {token : Token} (htoken : token ∈ askingTokens) (hc : isSpace c = true)
    (post : List Char) : ∃ s found, State.take {} 0 token.lexeme (c :: post) = ⟨found, .ok s⟩ ∧
      s.previous = some token ∧ Place.Reaches (Place.start (token.written ++ c :: post)) found
        ⟨s, Text.byteSize token.written, c :: post⟩ := by
  obtain rfl | hword := List.mem_cons.1 htoken
  · have hcut : cut (State.context {}) '=' ('>' :: c :: post) = ⟨.arrow, ['=', '>'], c :: post⟩ := rfl
    exact ⟨_, _, rfl, rfl, .single (.intro hcut rfl)⟩
  · obtain ⟨word, hmem, rfl⟩ := List.mem_map.1 hword
    have hwords : ∀ word ∈ askingWords, isWord word = true := by decide
    have hstop : ∀ d ∈ (c :: post).head?, isWordPart d = false := by
      have hinert := (isSpace_inert hc).1
      simp only [isInert, Bool.and_eq_true, Bool.not_eq_true'] at hinert
      simpa using hinert.1
    obtain ⟨e, more, htext, hstart, hcut⟩ := exists_cut_of_isWord (hwords word hmem) hstop (State.context {})
    have hplain : ¬ ['#', '!'] <+: e :: (more ++ c :: post) := by
      rintro ⟨after, hafter⟩
      obtain rfl : '#' = e := (List.cons.inj hafter).1
      exact absurd hstart (by decide)
    have hstep : Place.Step ⟨{}, 0, e :: (more ++ c :: post)⟩ _
        ⟨State.afterWord {} word, 0 + Text.byteSize (e :: more), c :: post⟩ := .intro hcut rfl
    rw [Nat.zero_add] at hstep
    rw [Token.written, htext, List.cons_append, Place.start_of_plain hplain]
    exact ⟨_, _, rfl, State.afterWord_previous {} word, .single hstep⟩

/-- What a scan finds from such a token on. -/
def Token.scanBefore (token : Token) (c : Char) (post : List Char) : Scan :=
  match State.take {} 0 token.lexeme (c :: post) with
  | ⟨found, .ok s⟩ => (scanFrom s (Text.byteSize token.written + Text.byteSize [c]) post).after found
  | ⟨found, .error fault⟩ => ⟨found, some fault⟩

theorem scan_asking {token : Token} (htoken : token ∈ askingTokens) (hc : isSpace c = true)
    (post : List Char) : scan (token.written ++ c :: post) = token.scanBefore c post := by
  obtain ⟨s, found, htake, -, hreaches⟩ := reaches_asking htoken hc post
  rw [← Place.scan_start, hreaches.scan, (Place.Step.space hc s _ post).scan, Token.scanBefore, htake]
  rfl

/-- Such a token passes over a space, but not over a no-break space; what follows both shows it. -/
theorem outcome_touchstone : ∀ token ∈ askingTokens,
    outcome (token.written ++ ' ' :: token.touchstone.1) token.touchstone.2 ≠
      outcome (token.written ++ '\u00a0' :: token.touchstone.1) token.touchstone.2 := by
  have hscan : ∀ token ∈ askingTokens,
      ((token.scanBefore ' ' token.touchstone.1).violation? token.touchstone.2).isNone ≠
        ((token.scanBefore '\u00a0' token.touchstone.1).violation? token.touchstone.2).isNone := by
    decide +kernel
  intro token htoken houtcome
  have hsame := isNone_violation?_of_outcome houtcome
  rw [scan_asking htoken rfl, scan_asking htoken (by decide)] at hsame
  exact hscan token htoken hsame

/--
Behind a token, one blank may stand for another in all texts exactly if the token passes over both of them or
over neither: the texts fail for the same reason then, or not at all.
-/
theorem outcome_space_iff (hc : isSpace c = true) (hd : isSpace d = true) (previous : Option Token) :
    (∀ {pre post : List Char} {s : State} {found : List Finding}, s.previous = previous →
      Place.Reaches (Place.start (pre ++ c :: post)) found ⟨s, Text.byteSize pre, c :: post⟩ →
      ∀ goal, outcome (pre ++ d :: post) goal = outcome (pre ++ c :: post) goal) ↔
      ∀ token ∈ previous, token.passesOver c = token.passesOver d := by
  constructor
  · rintro hsame token rfl
    by_contra hpasses
    have htoken : token ∈ askingTokens := by
      refine mem_askingTokens ?_
      by_contra hnone
      simp_all [Token.passesOver]
    obtain ⟨s, found, -, hprevious, hreaches⟩ := reaches_asking htoken hc token.touchstone.1
    have houtcome := hsame hprevious hreaches token.touchstone.2
    have hrepresent : ∀ token ∈ askingTokens,
        token.passesOver ' ' = true ∧ token.passesOver '\u00a0' = false := by
      decide
    obtain ⟨hspace, hother⟩ := hrepresent token htoken
    -- Each of the two blanks does what a space or a no-break space does in its place.
    have hlike {b : Char} (hb : isSpace b = true) :
        outcome (token.written ++ b :: token.touchstone.1) token.touchstone.2 =
          outcome (token.written ++ (if token.passesOver b then ' ' else '\u00a0') :: token.touchstone.1)
            token.touchstone.2 := by
      obtain ⟨s, found, -, hprevious, hreaches⟩ := reaches_asking htoken hb token.touchstone.1
      refine (outcome_eq_of_attempt (attempt_space hreaches hb ?_ ?_ _)).symm
      · split <;> decide
      · rw [hprevious]
        cases hover : token.passesOver b <;> simp [hover, hspace, hother]
    rw [hlike hc, hlike hd] at houtcome
    have htold := outcome_touchstone token htoken
    cases hover : token.passesOver c <;> cases hover' : token.passesOver d <;> simp_all
  · intro hpasses pre post s found hprevious hreaches goal
    exact outcome_eq_of_attempt (attempt_space hreaches hc hd (hprevious ▸ hpasses) goal)

/-- A tab may stand for the space behind a word that looks ahead. -/
theorem outcome_space_iff_of_tab : isSpace ' ' = true ∧ isSpace '\t' = true ∧
    outcome "import\t(x);".toList .script = outcome "import (x);".toList .script := by
  have hreaches : Place.Reaches (Place.start ("import".toList ++ ' ' :: "(x);".toList)) []
      ⟨State.afterWord {} "import", Text.byteSize "import".toList, ' ' :: "(x);".toList⟩ :=
    .single (.intro rfl rfl)
  refine ⟨rfl, rfl, ?_⟩
  exact (outcome_space_iff rfl rfl (some (.word "import"))).2 (by decide)
    (State.afterWord_previous {} "import") hreaches .script

/-- A no-break space may not: the word does not see the parenthesis behind it. -/
theorem outcome_space_of_noBreak : isSpace ' ' = true ∧ isSpace '\u00a0' = true ∧
    (∃ s found, Place.Reaches (Place.start ("import".toList ++ ' ' :: "(x);".toList)) found
      ⟨s, Text.byteSize "import".toList, ' ' :: "(x);".toList⟩) ∧
      outcome ("import".toList ++ ' ' :: "(x);".toList) .script = .ok () ∧
      outcome ("import".toList ++ '\u00a0' :: "(x);".toList) .script =
        .error "import declarations may only appear in module code" := by
  have haccepted : (scan ("import".toList ++ ' ' :: "(x);".toList)).violation? .script = none := by
    decide +kernel
  have hrejected : (scan ("import".toList ++ '\u00a0' :: "(x);".toList)).violation? .script =
      some ⟨0, .restriction .importDeclaration⟩ := by
    decide +kernel
  refine ⟨rfl, by decide, ⟨State.afterWord {} "import", [], .single (.intro rfl rfl)⟩, ?_, ?_⟩
  · rw [outcome_eq, haccepted]
  · rw [outcome_eq, hrejected]
    rfl

end ParseGoal.Ecma
