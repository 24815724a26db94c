import Mathlib.Tactic.IntervalCases
import Mathlib.Tactic.SplitIfs
import ParseGoal.Toml.Reader
import ParseGoal.Toml.Writer

/-!
A string is read back from the quotes it is written in, whichever form they have. Every form has a
lemma for one character; the forms of several lines also count the quotes that stand in a row.
-/
namespace ParseGoal.Toml

variable {multi : Bool} {c : Char} {text rest : List Char}

/-- A text that does not start with a quote of a given kind. -/
def StartsWithout (q : Char) (text : List Char) : Prop := text.head? ≠ some q

theorem startsWithout_cons {q : Char} (h : c ≠ q) : StartsWithout q (c :: rest) := by
  rw [StartsWithout, List.head?_cons, Ne, Option.some.injEq]
  exact h

theorem StartsWithout.ne_cons {q : Char} (h : StartsWithout q rest) (more : List Char) :
    rest ≠ q :: more := by
  rintro rfl
  exact h rfl

theorem isPlain_of_not_isControl (h : isControl c = false) (hfeed : c ≠ '\n') : isPlain c = true := by
  unfold isControl at h
  unfold isPlain
  by_cases htab : c = '\t'
  · simp [htab]
  · have hbounds : ¬ c.toNat < 0x20 ∧ c.toNat ≠ 0x7F := by simpa [htab, hfeed] using h
    simp [htab, Nat.le_of_not_lt hbounds.1, hbounds.2]

/-! Basic strings. -/

theorem basicBody?_lineFeed :
    basicBody? true false ('\n' :: rest) = withChar '\n' (basicBody? true false rest) := by
  rw [basicBody?]
  · rfl
  all_goals
    intros
    simp_all

theorem basicBody?_short {mark : Char} (h : shortEscape? mark = some c) :
    basicBody? multi false ('\\' :: mark :: rest) = withChar c (basicBody? multi false rest) := by
  have hu : mark ≠ 'u' ∧ mark ≠ 'U' := by
    constructor <;>
    · rintro rfl
      cases h
  have hblank : isBlank mark = false := by
    by_contra hblank
    rcases Bool.or_eq_true_iff.1 (Bool.of_not_eq_false hblank) with hmark | hmark <;>
    · rw [beq_iff_eq.1 hmark] at h
      cases h
  have hline : newline? (mark :: rest) = none := by
    unfold newline?
    split
    · next heq =>
      rw [(List.cons.inj heq).1] at h
      cases h
    · next heq =>
      rw [(List.cons.inj heq).1] at h
      cases h
    · rfl
  rw [basicBody?]
  · rw [List.dropWhile_cons_of_neg (by simp [hblank]), hline, Option.isSome_none, Bool.and_false,
      if_neg Bool.false_ne_true, h]
    rfl
  all_goals
    intros
    simp_all

theorem hexValue?_toUpper {n : Nat} (h : n < 16) :
    Text.hexValue? (Text.hexDigit n).toUpper = some n := by
  interval_cases n <;> rfl

theorem codePoint?_low (h : c.toNat < 0x100) :
    codePoint? ['0', '0', (Text.hexDigit (c.toNat / 16)).toUpper, (Text.hexDigit (c.toNat % 16)).toUpper] =
      some c := by
  have hzero : Text.hexValue? '0' = some 0 := rfl
  have hhigh := hexValue?_toUpper (show c.toNat / 16 < 16 by omega)
  have hlow := hexValue?_toUpper (show c.toNat % 16 < 16 by omega)
  have hsum : c.toNat / 16 * 16 + c.toNat % 16 = c.toNat := by omega
  have hvalid : c.toNat.isValidChar := .inl (by omega)
  simp [codePoint?, Text.hexDigitsValue?, hzero, hhigh, hlow, hsum, hvalid]

theorem basicBody?_unit (h : c.toNat < 0x100) :
    basicBody? multi false
        (['\\', 'u', '0', '0', (Text.hexDigit (c.toNat / 16)).toUpper,
          (Text.hexDigit (c.toNat % 16)).toUpper] ++ rest) =
      withChar c (basicBody? multi false rest) := by
  simp only [List.cons_append, List.nil_append]
  rw [basicBody?, codePoint?_low h]
  rfl

/-- Quotes and line feeds are written by the form itself; any other character is written by `escape`. -/
theorem basicBody?_escape (hquote : c ≠ '"') (hfeed : c ≠ '\n') :
    basicBody? multi false (escape c ++ rest) = withChar c (basicBody? multi false rest) := by
  unfold escape
  split_ifs with hbackslash htab hbackspace hform hreturn hcontrol
  · exact basicBody?_short (by rw [hbackslash]; rfl)
  · exact basicBody?_short (by rw [htab]; rfl)
  · exact basicBody?_short (by rw [hbackspace]; rfl)
  · exact basicBody?_short (by rw [hform]; rfl)
  · exact basicBody?_short (by rw [hreturn]; rfl)
  · refine basicBody?_unit ?_
    unfold isControl at hcontrol
    have hlow : c.toNat < 0x20 ∨ c.toNat = 0x7F := by
      simp only [Bool.or_eq_true, Bool.and_eq_true, decide_eq_true_eq, beq_iff_eq] at hcontrol
      exact hcontrol.imp (fun h => h.1.1) id
    omega
  · exact basicBody?_plain hquote hbackslash (isPlain_of_not_isControl (Bool.of_not_eq_true hcontrol) hfeed)

theorem basicBody?_basicText (text rest : List Char) :
    basicBody? false false (basicText text ++ '"' :: rest) = some (text, rest) := by
  induction text with
  | nil =>
    change basicBody? false false ('"' :: rest) = _
    unfold basicBody?
    split <;> grind
  | cons c more ih =>
    have hmore : basicBody? false false (basicText (c :: more) ++ '"' :: rest) =
        withChar c (basicBody? false false (basicText more ++ '"' :: rest)) := by
      unfold basicText
      rw [List.flatMap_cons, List.append_assoc]
      split_ifs with hquote hfeed
      · exact basicBody?_short (by rw [hquote]; rfl)
      · exact basicBody?_short (by rw [hfeed]; rfl)
      · exact basicBody?_escape hquote hfeed
    rw [hmore, ih]
    rfl

/-- A quote is part of the string if no two others follow it. -/
theorem basicBody?_quote (h : ∀ more, rest ≠ '"' :: '"' :: more) :
    basicBody? true false ('"' :: rest) = withChar '"' (basicBody? true false rest) := by
  rw [basicBody?]
  · rfl
  all_goals
    rintro _ rfl
    exact h _ rfl

/-- Up to two quotes in a row are part of the string. -/
theorem basicBody?_quotes {quotes : Nat} (hquotes : quotes ≤ 2) (h : StartsWithout '"' rest) :
    basicBody? true false (List.replicate quotes '"' ++ rest) =
      (basicBody? true false rest).map fun p => (List.replicate quotes '"' ++ p.1, p.2) := by
  interval_cases quotes
  · exact Option.map_id'.symm
  · exact basicBody?_quote fun more => h.ne_cons _
  · have hfirst : basicBody? true false ('"' :: '"' :: rest) =
        withChar '"' (basicBody? true false ('"' :: rest)) :=
      basicBody?_quote fun more heq => h.ne_cons more (List.cons.inj heq).2
    refine hfirst.trans ?_
    rw [basicBody?_quote fun more => h.ne_cons _]
    cases basicBody? true false rest <;> rfl

theorem startsWithout_escape (h : c ≠ '"') : StartsWithout '"' (escape c ++ rest) := by
  unfold escape
  split_ifs
  all_goals exact startsWithout_cons (by first | decide | exact h)

/-- `quotes` counts the quotes that are written already and stand in a row. -/
theorem basicBody?_multiBasicText {quotes : Nat} (hquotes : quotes ≤ 2) (text : List Char)
    (hrest : StartsWithout '"' rest) :
    basicBody? true false
        (List.replicate quotes '"' ++ (multiBasicText quotes text ++ '"' :: '"' :: '"' :: rest)) =
      some (List.replicate quotes '"' ++ text, rest) := by
  induction text generalizing quotes with
  | nil =>
    have hone := hrest.ne_cons
    interval_cases quotes <;>
    · change basicBody? true false _ = _
      unfold basicBody?
      simp_all [multiBasicText]
  | cons c more ih =>
    have hmore : basicBody? true false (multiBasicText 0 more ++ '"' :: '"' :: '"' :: rest) =
        some (more, rest) := ih (Nat.zero_le 2)
    unfold multiBasicText
    split_ifs with hquote htwo hfeed
    · -- the third quote in a row is escaped
      subst hquote htwo
      rw [List.cons_append, List.cons_append, basicBody?_quotes hquotes (startsWithout_cons (by decide)),
        basicBody?_short rfl, hmore]
      rfl
    · subst hquote
      have hnext := ih (show quotes + 1 ≤ 2 by omega)
      rw [List.replicate_succ', List.append_assoc, List.append_assoc] at hnext
      exact hnext
    · subst hfeed
      rw [List.cons_append, basicBody?_quotes hquotes (startsWithout_cons (by decide)),
        basicBody?_lineFeed, hmore]
      rfl
    · rw [List.append_assoc, basicBody?_quotes hquotes (startsWithout_escape hquote),
        basicBody?_escape hquote hfeed, hmore]
      rfl

/-! Literal strings. -/

/-- A string of several lines may also have line feeds. -/
theorem literalBody?_escapeless (hquote : c ≠ '\'') (hcontrol : isControl c = false) :
    literalBody? true (c :: rest) = withChar c (literalBody? true rest) := by
  by_cases hfeed : c = '\n'
  · subst hfeed
    rw [literalBody?]
    · rfl
    all_goals
      intros
      simp_all
  · exact literalBody?_plain hquote (isPlain_of_not_isControl hcontrol hfeed)

theorem hasTriple_tail {q : Char} (h : hasTriple q (c :: rest) = false) : hasTriple q rest = false := by
  match rest with
  | [] => rfl
  | [_] => rfl
  | a :: b :: more =>
    rw [hasTriple, Bool.or_eq_false_iff] at h
    exact h.2

theorem literalBody?_quote (h : ∀ more, rest ≠ '\'' :: '\'' :: more) :
    literalBody? true ('\'' :: rest) = withChar '\'' (literalBody? true rest) := by
  rw [literalBody?]
  · rfl
  all_goals
    rintro _ rfl
    exact h _ rfl

theorem literalBody?_line (hquote : '\'' ∉ text) (hplain : ∀ c ∈ text, isPlain c = true) :
    literalBody? false (text ++ '\'' :: rest) = some (text, rest) := by
  induction text with
  | nil =>
    change literalBody? false ('\'' :: rest) = _
    unfold literalBody?
    split <;> grind
  | cons c more ih =>
    rw [List.mem_cons, not_or] at hquote
    rw [List.cons_append, literalBody?_plain (Ne.symm hquote.1) (hplain c (.head _)),
      ih hquote.2 fun d hd => hplain d (.tail _ hd)]
    rfl

theorem literalBody?_lines (hcontrol : ∀ c ∈ text, isControl c = false)
    (htriple : hasTriple '\'' text = false) (hrest : StartsWithout '\'' rest) :
    literalBody? true (text ++ '\'' :: '\'' :: '\'' :: rest) = some (text, rest) := by
  induction text with
  | nil =>
    have hone := hrest.ne_cons
    change literalBody? true _ = _
    unfold literalBody?
    simp_all
  | cons c more ih =>
    have hmore := ih (fun d hd => hcontrol d (.tail _ hd)) (hasTriple_tail htriple)
    by_cases hquote : c = '\''
    · subst hquote
      match more with
      | [] => simp [literalBody?, hrest.ne_cons]
      | [a] =>
        by_cases ha : a = '\''
        · simp [literalBody?, ha]
        · rw [List.cons_append, literalBody?_quote (by simp [ha]), hmore]
          rfl
      | a :: b :: later =>
        have hnext : ¬ (a = '\'' ∧ b = '\'') := by simp_all [hasTriple]
        rw [List.cons_append, literalBody?_quote (by simp_all), hmore]
        rfl
    · rw [List.cons_append, literalBody?_escapeless hquote (hcontrol c (.head _)), hmore]
      rfl

/-! Strings of any form. -/

/-- What `formOf` checks before it chooses a literal form. -/
theorem formOf_literal (h : formOf text = .literal) :
    text ≠ [] ∧ '\'' ∉ text ∧ ∀ c ∈ text, isPlain c = true := by
  unfold formOf at h
  dsimp only at h
  split_ifs at h with hbasic hliteral
  simp only [Bool.not_eq_true', Bool.or_eq_false_iff, List.contains_eq_mem, decide_eq_false_iff_not,
    List.any_eq_false] at hliteral
  obtain ⟨⟨hquote, hfeed⟩, hcontrol⟩ := hliteral
  refine ⟨?_, hquote, fun c hc => ?_⟩
  · rintro rfl
    exact hbasic rfl
  · refine isPlain_of_not_isControl (Bool.of_not_eq_true (hcontrol c hc)) ?_
    rintro rfl
    exact hfeed hc

theorem formOf_multiLiteral (h : formOf text = .multiLiteral) :
    (∀ c ∈ text, isControl c = false) ∧ hasTriple '\'' text = false := by
  unfold formOf at h
  dsimp only at h
  split_ifs at h with hbasic hliteral hmulti hform
  simp only [Bool.not_eq_true', Bool.or_eq_false_iff, List.any_eq_false] at hform
  exact ⟨fun c hc => Bool.of_not_eq_true (hform.1 c hc), hform.2⟩

/-- The line feed that is put before a string is the one that is dropped. -/
theorem dropNewline_lead (body : List Char) (hfeed : '\n' ∉ text → body.head? ≠ some '\n')
    (hreturn : body.head? ≠ some '\r') :
    dropNewline ((if text.contains '\n' then ['\n'] else []) ++ body) = body := by
  by_cases htext : '\n' ∈ text
  · rw [if_pos (List.contains_iff_mem.2 htext)]
    rfl
  · rw [if_neg (mt List.contains_iff_mem.1 htext)]
    unfold dropNewline newline?
    split
    · next heq => exact absurd (congrArg List.head? heq) (hfeed htext)
    · next heq => exact absurd (congrArg List.head? heq) hreturn
    · rfl

theorem head?_escape (hfeed : c ≠ '\n') :
    (escape c ++ rest).head? ≠ some '\n' ∧ (escape c ++ rest).head? ≠ some '\r' := by
  unfold escape
  split_ifs with hbackslash htab hbackspace hform hreturn
  all_goals simp_all

theorem string?_multiBasic (text : List Char) (hrest : StartsWithout '"' rest) :
    basicBody? true false (dropNewline ((if text.contains '\n' then ['\n'] else []) ++
        (multiBasicText 0 text ++ '"' :: '"' :: '"' :: rest))) = some (text, rest) := by
  have hbody := basicBody?_multiBasicText (Nat.zero_le 2) text hrest
  rw [dropNewline_lead]
  · exact hbody
  · intro hfeed
    cases text with
    | nil => simp [multiBasicText]
    | cons c more =>
      rw [List.mem_cons, not_or] at hfeed
      unfold multiBasicText
      rw [if_neg (Nat.zero_ne_add_one 1), if_neg (Ne.symm hfeed.1)]
      split_ifs
      · simp
      · rw [List.append_assoc]
        exact (head?_escape (Ne.symm hfeed.1)).1
  · cases text with
    | nil => simp [multiBasicText]
    | cons c more =>
      unfold multiBasicText
      rw [if_neg (Nat.zero_ne_add_one 1)]
      split_ifs with hquote hfeed
      · simp
      · simp
      · rw [List.append_assoc]
        exact (head?_escape hfeed).2

theorem string?_multiLiteral (hcontrol : ∀ c ∈ text, isControl c = false)
    (htriple : hasTriple '\'' text = false) (hrest : StartsWithout '\'' rest) :
    literalBody? true (dropNewline ((if text.contains '\n' then ['\n'] else []) ++
        (text ++ '\'' :: '\'' :: '\'' :: rest))) = some (text, rest) := by
  rw [dropNewline_lead]
  · exact literalBody?_lines hcontrol htriple hrest
  · intro hfeed
    cases text with
    | nil => simp
    | cons c more =>
      rw [List.mem_cons, not_or] at hfeed
      simpa using Ne.symm hfeed.1
  · cases text with
    | nil => simp
    | cons c more =>
      have hreturn := hcontrol c (.head _)
      rw [List.cons_append, List.head?_cons, Ne, Option.some.injEq]
      rintro rfl
      revert hreturn
      decide

theorem basicText_cons (c : Char) (more : List Char) :
    StartsWithout '"' (basicText (c :: more) ++ rest) := by
  unfold basicText
  rw [List.flatMap_cons, List.append_assoc]
  split_ifs with hquote hfeed
  · exact startsWithout_cons (by decide)
  · exact startsWithout_cons (by decide)
  · exact startsWithout_escape hquote

/-- A string that does not begin with three quotes is on one line. -/
theorem string?_line (hbasic : ∀ more, text ≠ '"' :: '"' :: '"' :: more)
    (hliteral : ∀ more, text ≠ '\'' :: '\'' :: '\'' :: more) : string? text = lineString? text := by
  rw [string?]
  · exact hbasic
  · exact hliteral

/-- A text that does not start with a quote of either kind. -/
def EndsString (text : List Char) : Prop := StartsWithout '"' text ∧ StartsWithout '\'' text

/-- A string is read back as it was written, whatever follows it but for quotes. -/
theorem string?_quote (text : List Char) (hrest : EndsString rest) :
    string? (quote text ++ rest) = some (text, rest) := by
  unfold quote
  dsimp only
  split
  · rw [List.cons_append, List.append_assoc, string?_line]
    · exact basicBody?_basicText text rest
    · intro more h
      cases text with
      | nil => exact hrest.1.ne_cons more (List.cons.inj (List.cons.inj h).2).2
      | cons c later => exact (basicText_cons c later).ne_cons _ (List.cons.inj h).2
    · exact fun more h => absurd (List.cons.inj h).1 (by decide)
  · next hform =>
    obtain ⟨hne, hquote, hplain⟩ := formOf_literal hform
    rw [List.cons_append, List.append_assoc, string?_line]
    · exact literalBody?_line hquote hplain
    · exact fun more h => absurd (List.cons.inj h).1 (by decide)
    · intro more h
      obtain ⟨c, later, rfl⟩ := List.exists_cons_of_ne_nil hne
      exact hquote ((List.cons.inj (List.cons.inj h).2).1 ▸ .head _)
  · rw [List.cons_append, List.cons_append, List.cons_append, List.append_assoc, List.append_assoc]
    exact string?_multiBasic text hrest.1
  · next hform =>
    obtain ⟨hcontrol, htriple⟩ := formOf_multiLiteral hform
    rw [List.cons_append, List.cons_append, List.cons_append, List.append_assoc, List.append_assoc]
    exact string?_multiLiteral hcontrol htriple hrest.2

end ParseGoal.Toml
