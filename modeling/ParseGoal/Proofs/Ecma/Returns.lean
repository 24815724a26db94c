import ParseGoal.Proofs.Ecma.Embedding
import ParseGoal.Proofs.Text.LineEnds

/-!
Lexemes of a text whose lines end in a carriage return and a line feed. They are those of the text with line
feeds alone, except that a regular expression cannot go over the end of a line; looking ahead tells the same.
-/
namespace ParseGoal.Ecma

open Text (withReturns withReturns_feed withReturns_cons head?_withReturns)

/-- What an element of a string becomes: a line that goes on ends in both characters. -/
def StringPart.withReturns : StringPart → StringPart
  | .escape c => if c = '\n' then .crlf else .escape c
  | part => part

/-- What a lexeme becomes: only strings show how their lines end. -/
def Lexeme.withReturns (lexeme : Lexeme) : Lexeme :=
  lexeme.withParts (lexeme.parts.map StringPart.withReturns)

section

variable {quote : Char} {text body after : List Char} {inClass : Bool}

theorem stringParts_withReturns (hquote : quote = '\'' ∨ quote = '"') (hreturn : '\r' ∉ text) :
    stringParts quote (withReturns text) =
      ((stringParts quote text).1.map StringPart.withReturns,
        (stringParts quote text).2.map withReturns) := by
  have hne : quote ≠ '\n' ∧ quote ≠ '\r' ∧ quote ≠ '\\' := by
    rcases hquote with rfl | rfl <;> decide
  fun_induction stringParts quote text with
  | case1 => rfl
  | case2 => rfl
  | case3 => simp at hreturn
  | case4 d rest hd parts after heq ih =>
    simp only [List.mem_cons, not_or] at hreturn
    obtain ⟨-, hd', hrest⟩ := hreturn
    specialize ih hrest
    rw [heq] at ih
    by_cases hfeed : d = '\n'
    · subst hfeed
      rw [withReturns_cons (by decide), withReturns_feed, stringParts_crlf, ih]
      rfl
    · rw [withReturns_cons (by decide), withReturns_cons hfeed, stringParts_escape fun h => hd' h.1.symm, ih]
      simp [StringPart.withReturns, hfeed]
  | case5 rest hslash =>
    rw [withReturns_cons hne.1, stringParts_close hne.2.2]
    rfl
  | case6 c rest hslash hquote' hline =>
    have hfeed : c = '\n' := hline.resolve_right fun h => hreturn (h ▸ List.mem_cons_self)
    subst hfeed
    rw [withReturns_feed, stringParts.eq_def]
    simp [hne.2.1.symm]
  | case7 c rest hslash hquote' hline parts after heq ih =>
    specialize ih fun h => hreturn (List.mem_cons_of_mem _ h)
    rw [heq] at ih
    rw [withReturns_cons fun h => hline (.inl h), stringParts_plain hslash hquote' hline, ih]
    rfl

/-- The elements of a string are written with the returns put in. -/
theorem text_withReturns_of_mem (hreturn : '\r' ∉ text) {part : StringPart}
    (h : part ∈ (stringParts quote text).1) : part.withReturns.text = Text.withReturns part.text := by
  fun_induction stringParts quote text with
  | case1 | case2 | case5 | case6 => cases h
  | case3 => simp at hreturn
  | case4 d rest hd parts after heq ih =>
    simp only [List.mem_cons, not_or] at hreturn
    rw [heq] at ih
    rcases List.mem_cons.1 h with rfl | h
    · by_cases hfeed : d = '\n'
      · subst hfeed
        rfl
      · have hsame : Text.withReturns ['\\', d] = ['\\', d] := by
          rw [withReturns_cons (by decide), withReturns_cons hfeed]
          rfl
        simp [StringPart.withReturns, hfeed, StringPart.text, hsame]
    · exact ih hreturn.2.2 h
  | case7 c rest hslash hne hline parts after heq ih =>
    simp only [List.mem_cons, not_or] at hreturn
    rw [heq] at ih
    rcases List.mem_cons.1 h with rfl | h
    · exact (withReturns_cons (fun h => hline (.inl h)) []).symm
    · exact ih hreturn.2 h

theorem isOctal_withReturns (part : StringPart) (parts : List StringPart) :
    part.withReturns.isOctal (parts.map StringPart.withReturns) = part.isOctal parts := by
  have hdigit (part : StringPart) : part.withReturns.isDigit = part.isDigit := by
    cases part with
    | escape c =>
      rw [StringPart.withReturns]
      split <;> rfl
    | plain | crlf => rfl
  have hhead : (parts.map StringPart.withReturns).head?.map StringPart.isDigit =
      parts.head?.map StringPart.isDigit := by
    cases parts with
    | nil => rfl
    | cons part parts => simp [hdigit]
  cases part with
  | plain | crlf => rfl
  | escape c =>
    by_cases hc : c = '\n'
    · subst hc
      rfl
    · simp only [StringPart.withReturns, if_neg hc, StringPart.isOctal, hhead]

/-- Octal escapes move by the returns before them. -/
theorem octalOffsets_withReturns {f : Nat → Nat} {start start' : Nat} {parts : List StringPart}
    (htext : ∀ part ∈ parts, part.withReturns.text = withReturns part.text)
    (hf : ∀ first, first <+: stringText parts →
      f (start + Text.byteSize first) = start' + Text.byteSize (withReturns first)) :
    octalOffsets start' (parts.map StringPart.withReturns) = (octalOffsets start parts).map f := by
  induction parts generalizing start start' with
  | nil => rfl
  | cons part parts ih =>
    have hhere : f start = start' := hf [] List.nil_prefix
    have hlater : octalOffsets (start' + Text.byteSize part.withReturns.text)
        (parts.map StringPart.withReturns) =
          (octalOffsets (start + Text.byteSize part.text) parts).map f := by
      refine ih (fun part hpart => htext part (List.mem_cons_of_mem _ hpart)) fun first hfirst => ?_
      have hmore : part.text ++ first <+: stringText (part :: parts) :=
        (List.prefix_append_right_inj part.text).2 hfirst
      rw [Nat.add_assoc, ← Text.byteSize_append, hf _ hmore, Text.withReturns_append,
        Text.byteSize_append, htext part List.mem_cons_self, Nat.add_assoc]
    rw [List.map_cons, octalOffsets, octalOffsets, isOctal_withReturns, hlater, ← hhere]
    split <;> rfl

theorem templateBody_withReturns (text : List Char) : templateBody (withReturns text) =
    (templateBody text).map fun (stop, body, after) => (stop, withReturns body, withReturns after) := by
  have hfeed (rest : List Char) : templateBody ('\n' :: rest) =
      (templateBody rest).map fun (stop, body, after) => (stop, '\n' :: body, after) :=
    templateBody_plain (by decide) (by decide) (by simp)
  fun_induction templateBody text with
  | case1 => rfl
  | case2 => rfl
  | case3 d rest ih =>
    by_cases hd : d = '\n'
    · subst hd
      rw [withReturns_cons (by decide), withReturns_feed, templateBody, if_pos rfl, hfeed, ih]
      simp [Function.comp_def, withReturns_feed, withReturns_cons]
    · rw [withReturns_cons (by decide), withReturns_cons hd, templateBody, if_pos rfl, ih]
      simp [Function.comp_def, withReturns_cons, hd]
  | case4 rest =>
    rw [withReturns_cons (by decide), templateBody.eq_def]
    rfl
  | case5 c rest hslash hquote hhole =>
    obtain ⟨rfl, hhead⟩ := hhole
    obtain ⟨rest, rfl⟩ := List.head?_eq_some_iff.1 hhead
    rw [withReturns_cons (by decide), withReturns_cons (by decide), templateBody.eq_def]
    rfl
  | case6 c rest hslash hquote hhole ih =>
    by_cases hc : c = '\n'
    · subst hc
      rw [withReturns_feed, templateBody_plain (by decide) (by decide) (by simp), hfeed, ih]
      simp [Function.comp_def, withReturns_feed]
    · have hhole' : ¬ (c = '$' ∧ (withReturns rest).head? = some '{') := by
        rwa [head?_withReturns (by decide) (by decide)]
      rw [withReturns_cons hc, templateBody_plain hslash hquote hhole', ih]
      simp [Function.comp_def, withReturns_cons hc]

theorem commentBody_withReturns (text : List Char) : commentBody (withReturns text) =
    (commentBody text).map fun (body, after) => (withReturns body, withReturns after) := by
  fun_induction commentBody text with
  | case1 => rfl
  | case2 c rest h =>
    obtain ⟨rfl, hhead⟩ := h
    obtain ⟨rest, rfl⟩ := List.head?_eq_some_iff.1 hhead
    rw [withReturns_cons (by decide), withReturns_cons (by decide)]
    rfl
  | case3 c rest h ih =>
    by_cases hc : c = '\n'
    · subst hc
      rw [withReturns_feed, commentBody, if_neg (by simp), commentBody, if_neg (by simp), ih]
      simp [Function.comp_def, withReturns_feed]
    · have hend : ¬ (c = '*' ∧ (withReturns rest).head? = some '/') := by
        rwa [head?_withReturns (by decide) (by decide)]
      rw [withReturns_cons hc, commentBody, if_neg hend, ih]
      simp [Function.comp_def, withReturns_cons hc]

/-- A regular expression within a line ends where it ended. -/
theorem regexBody_withReturns (h : regexBody inClass text = some (body, after)) (hfeed : '\n' ∉ body) :
    regexBody inClass (withReturns text) = some (body, withReturns after) := by
  rw [regexBody_eq_some_iff] at h ⊢
  induction h with
  | close after =>
    rw [withReturns_cons (by decide)]
    exact .close _
  | escape d _ ih =>
    simp only [List.mem_cons, not_or] at hfeed
    obtain ⟨-, hd, hfeed⟩ := hfeed
    rw [withReturns_cons (by decide), withReturns_cons (Ne.symm hd)]
    exact .escape d (ih hfeed)
  | inner hc _ ih =>
    rw [withReturns_cons (not_or.1 hc.line).1]
    exact .inner hc (ih fun hmem => hfeed (List.mem_cons_of_mem _ hmem))

/-- What does not end within its line does not end in front of a return either. -/
theorem regexBody_withReturns_none (h : regexBody inClass text = none) :
    regexBody inClass (withReturns text) = none := by
  induction inClass, text using regexBody_induction with
  | nil inClass => rfl
  | line inClass c rest hline =>
    by_cases hc : c = '\n'
    · subst hc
      rw [withReturns_feed, regexBody_line (.inr rfl)]
    · rw [withReturns_cons hc, regexBody_line hline]
  | backslash inClass => rfl
  | close rest => cases (regexBody_close rest).symm.trans h
  | escape inClass d rest ih =>
    rw [regexBody_escape, Option.map_eq_none_iff] at h
    by_cases hd : d = '\n'
    · subst hd
      rw [withReturns_cons (by decide), withReturns_feed, regexBody_escape, regexBody_line (.inl rfl)]
      rfl
    · rw [withReturns_cons (by decide), withReturns_cons hd, regexBody_escape, ih h]
      rfl
  | inner inClass c rest hc ih =>
    rw [regexBody_inner hc, Option.map_eq_none_iff] at h
    rw [withReturns_cons (not_or.1 hc.line).1, regexBody_inner hc, ih h]
    rfl

theorem numberTail_withReturns (hexadecimal : Bool) (before : Char) (text : List Char) :
    numberTail hexadecimal before (withReturns text) =
      ((numberTail hexadecimal before text).1, withReturns (numberTail hexadecimal before text).2) := by
  fun_induction numberTail hexadecimal before text with
  | case1 => rfl
  | case2 before c rest hc tail after heq ih =>
    have hfeed : c ≠ '\n' := by
      rintro rfl
      exact absurd (isInert_of_number hc) (by decide)
    rw [withReturns_cons hfeed, numberTail, if_pos hc, ih, heq]
  | case3 before c rest hc =>
    by_cases hfeed : c = '\n'
    · subst hfeed
      rw [withReturns_feed, numberTail, if_neg fun h => absurd (isInert_of_number h) (by decide)]
    · rw [withReturns_cons hfeed, numberTail, if_neg hc]

end

/-! One lexeme. -/

/-- What a lexeme leaves of a line: nothing but the return, which a comment that fills its line takes too. -/
def IsGap (rest gap : List Char) : Prop := gap = [] ∨ gap = ['\r'] ∧ ∃ more, rest = '\n' :: more

/-- A lexeme of a text, and what it becomes with the returns put in. -/
structure Cut.Returned (piece piece' : Cut) : Prop where
  lexeme : piece'.lexeme = piece.lexeme.withReturns
  rest : ∃ gap, IsGap piece.rest gap ∧ piece'.text = withReturns piece.text ++ gap ∧
    gap ++ piece'.rest = withReturns piece.rest

theorem lineText_withReturns (text : List Char) : ∃ gap, IsGap (afterLine text) gap ∧
    lineText (withReturns text) = withReturns (lineText text) ++ gap ∧
      gap ++ afterLine (withReturns text) = withReturns (afterLine text) := by
  induction text with
  | nil => exact ⟨[], .inl rfl, rfl, rfl⟩
  | cons c text ih =>
    by_cases hc : c = '\n'
    · subst hc
      rw [withReturns_feed]
      exact ⟨['\r'], .inr ⟨rfl, text, rfl⟩, rfl, rfl⟩
    · obtain ⟨gap, hgap, hline, hafter⟩ := ih
      have hpass (text : List Char) : lineText (c :: text) = c :: lineText text ∧
          afterLine (c :: text) = afterLine text := by
        simp [lineText, afterLine, hc]
      rw [withReturns_cons hc, (hpass _).1, (hpass _).2, (hpass _).1, (hpass _).2, withReturns_cons hc, hline]
      exact ⟨gap, hgap, rfl, hafter⟩

section

variable {lexeme : Lexeme} {c : Char} {text rest rest' : List Char}

theorem Cut.returned {text' : List Char} (hlexeme : lexeme.withReturns = lexeme)
    (htext : text' = withReturns text) (hrest : rest' = withReturns rest) :
    Returned ⟨lexeme, text, rest⟩ ⟨lexeme, text', rest'⟩ :=
  ⟨hlexeme.symm, [], .inl rfl, htext.trans (List.append_nil _).symm, hrest⟩

theorem Cut.returned_one (hlexeme : lexeme.withReturns = lexeme) (hc : c ≠ '\n') (rest : List Char) :
    Returned ⟨lexeme, [c], rest⟩ ⟨lexeme, [c], withReturns rest⟩ :=
  returned hlexeme (withReturns_cons hc []).symm rfl

/-- A comment that fills its line takes the return. -/
theorem cutLine_returned (hlexeme : lexeme.withReturns = lexeme) (hc : c ≠ '\n') (rest : List Char) :
    Cut.Returned ⟨lexeme, c :: lineText rest, afterLine rest⟩
      ⟨lexeme, c :: lineText (withReturns rest), afterLine (withReturns rest)⟩ := by
  obtain ⟨gap, hgap, hline, hafter⟩ := lineText_withReturns rest
  refine ⟨hlexeme.symm, gap, hgap, ?_, hafter⟩
  rw [withReturns_cons hc, hline, List.cons_append]

theorem cutRun_returned {lexeme : List Char → Lexeme} {p : Char → Bool}
    (hlexeme : ∀ text, (lexeme text).withReturns = lexeme text) (hc : c ≠ '\n') (hreturn : p '\r' = false)
    (hfeed : p '\n' = false) (rest : List Char) :
    (cutRun lexeme c p rest).Returned (cutRun lexeme c p (withReturns rest)) := by
  obtain ⟨htake, hdrop⟩ := span_markBefore (l := rest) hreturn hfeed
  have hrun : '\n' ∉ c :: rest.takeWhile p := by
    rw [List.mem_cons, not_or]
    refine ⟨Ne.symm hc, fun h => ?_⟩
    rw [List.mem_takeWhile_imp h] at hfeed
    cases hfeed
  rw [cutRun, cutRun, Text.withReturns, htake, hdrop]
  exact Cut.returned (hlexeme _) (Text.withReturns_of_not_mem hrun).symm rfl

theorem cutSlash_returned (context : Context) (rest : List Char)
    (hregex : (cutSlash context rest).lexeme = .regex → '\n' ∉ (cutSlash context rest).text) :
    (cutSlash context rest).Returned (cutSlash context (withReturns rest)) := by
  have hslash := head?_withReturns (c := '/') (by decide) (by decide) rest
  have hstar := head?_withReturns (c := '*') (by decide) (by decide) rest
  have hequal := head?_withReturns (c := '=') (by decide) (by decide) rest
  have htail {d : Char} (hd : d ≠ '\n') (h : rest.head? = some d) :
      (withReturns rest).tail = withReturns rest.tail := by
    obtain ⟨rest, rfl⟩ := List.head?_eq_some_iff.1 h
    rw [withReturns_cons hd]
    rfl
  revert hregex
  fun_cases cutSlash context rest with
  | case1 h =>
    intro _
    rw [cutSlash, if_pos (hslash.2 h)]
    exact cutLine_returned rfl (by decide) rest
  | case2 h h' body after hbody =>
    intro _
    have hlines : (withReturns body).contains '\n' = body.contains '\n' := by
      rw [Bool.eq_iff_iff, List.contains_iff_mem, List.contains_iff_mem, ← List.count_pos_iff,
        ← List.count_pos_iff, Text.count_withReturns]
    rw [cutSlash, if_neg (mt hslash.1 h), if_pos (hstar.2 h'), htail (by decide) h', commentBody_withReturns,
      hbody]
    dsimp only [Option.map_some]
    rw [hlines]
    refine Cut.returned rfl ?_ rfl
    rw [withReturns_cons (by decide), withReturns_cons (by decide)]
  | case3 h h' hbody =>
    intro _
    rw [cutSlash, if_neg (mt hslash.1 h), if_pos (hstar.2 h'), htail (by decide) h', commentBody_withReturns,
      hbody]
    exact Cut.returned rfl (withReturns_cons (by decide) rest).symm rfl
  | case4 h h' hallowed body after hbody =>
    intro hregex
    have htext := hregex rfl
    obtain ⟨htake, hdrop⟩ : (withReturns after).takeWhile isIdentifierPart =
        after.takeWhile isIdentifierPart ∧ (withReturns after).dropWhile isIdentifierPart =
          withReturns (after.dropWhile isIdentifierPart) := span_markBefore (by decide) (by decide)
    rw [cutSlash, if_neg (mt hslash.1 h), if_neg (mt hstar.1 h'), if_pos hallowed,
      regexBody_withReturns hbody fun hmem => htext (by simp [hmem])]
    dsimp only
    rw [htake, hdrop]
    exact Cut.returned rfl (Text.withReturns_of_not_mem htext).symm rfl
  | case5 h h' hallowed hbody =>
    intro _
    rw [cutSlash, if_neg (mt hslash.1 h), if_neg (mt hstar.1 h'), if_pos hallowed,
      regexBody_withReturns_none hbody]
    exact Cut.returned rfl (withReturns_cons (by decide) rest).symm rfl
  | case6 h h' hallowed h'' =>
    intro _
    rw [cutSlash, if_neg (mt hslash.1 h), if_neg (mt hstar.1 h'), if_neg hallowed, if_pos (hequal.2 h''),
      htail (by decide) h'']
    exact Cut.returned rfl rfl rfl
  | case7 h h' hallowed h'' =>
    intro _
    rw [cutSlash, if_neg (mt hslash.1 h), if_neg (mt hstar.1 h'), if_neg hallowed, if_neg (mt hequal.1 h'')]
    exact Cut.returned_one rfl (by decide) rest

theorem cutString_returned (hc : c = '\'' ∨ c = '"') (hreturn : '\r' ∉ rest) :
    (cutString c rest).Returned (cutString c (withReturns rest)) := by
  have hfeed : c ≠ '\n' := by rcases hc with rfl | rfl <;> decide
  have htext : stringText ((stringParts c rest).1.map StringPart.withReturns) =
      withReturns (stringText (stringParts c rest).1) := by
    have hmem : ∀ part ∈ (stringParts c rest).1, part.withReturns.text = withReturns part.text :=
      fun part => text_withReturns_of_mem hreturn
    generalize (stringParts c rest).1 = parts at hmem
    induction parts with
    | nil => rfl
    | cons part parts ih =>
      rw [List.map_cons, stringText, stringText, List.flatMap_cons, List.flatMap_cons,
        Text.withReturns_append, hmem part List.mem_cons_self]
      exact congrArg _ (ih fun part hpart => hmem part (List.mem_cons_of_mem _ hpart))
  rw [cutString, cutString, stringParts_withReturns hc hreturn]
  cases hparts : stringParts c rest with
  | mk parts after =>
    rw [hparts] at htext
    cases after with
    | none => exact ⟨rfl, [], .inl rfl, by simp [withReturns_cons hfeed], rfl⟩
    | some after =>
      refine ⟨rfl, [], .inl rfl, ?_, rfl⟩
      dsimp only at htext ⊢
      rw [List.append_nil, withReturns_cons hfeed, Text.withReturns_append, ← htext, withReturns_cons hfeed]
      rfl

theorem cutTemplate_returned {lexeme : Option TemplateStop → Lexeme}
    (hlexeme : ∀ stop, (lexeme stop).withReturns = lexeme stop) (hc : c ≠ '\n') (rest : List Char) :
    (cutTemplate lexeme c rest).Returned (cutTemplate lexeme c (withReturns rest)) := by
  rw [cutTemplate, cutTemplate, templateBody_withReturns]
  cases templateBody rest with
  | none => exact Cut.returned (hlexeme _) (withReturns_cons hc rest).symm rfl
  | some found => exact Cut.returned (hlexeme _) (withReturns_cons hc _).symm rfl

theorem isDigit_head_withReturns (rest : List Char) :
    ((withReturns rest).head?.map Char.isDigit).getD false = (rest.head?.map Char.isDigit).getD false := by
  cases rest with
  | nil => rfl
  | cons c rest =>
    by_cases hc : c = '\n'
    · subst hc
      rfl
    · rw [withReturns_cons hc]
      rfl

theorem cutNumber_returned (hc : c ≠ '\n') (rest : List Char) :
    (cutNumber c rest).Returned (cutNumber c (withReturns rest)) := by
  have hdigit : ((withReturns rest).head?.map Char.isDigit).getD false =
      (rest.head?.map Char.isDigit).getD false := isDigit_head_withReturns rest
  have hlower := head?_withReturns (c := 'x') (by decide) (by decide) rest
  have hupper := head?_withReturns (c := 'X') (by decide) (by decide) rest
  rw [cutNumber, cutNumber]
  simp only [hdigit, hlower, hupper, numberTail_withReturns]
  have htail (hexadecimal : Bool) : '\n' ∉ (numberTail hexadecimal c rest).1 := fun hmem =>
    absurd (not_inert_of_mem_numberTail _ hmem) (by decide)
  refine Cut.returned rfl ?_ rfl
  rw [withReturns_cons hc, Text.withReturns_of_not_mem (htail _)]

theorem cutWide_returned (hc : c ≠ '\n') (rest : List Char) :
    (cutWide c rest).Returned (cutWide c (withReturns rest)) := by
  unfold cutWide
  split
  · exact Cut.returned_one rfl hc rest
  split
  · exact Cut.returned_one rfl hc rest
  split
  · exact cutRun_returned (fun _ => rfl) hc (by decide) (by decide) rest
  · exact Cut.returned_one rfl hc rest

theorem cut_returned_of_sign (context : Context) (hc : c ∈ signs) (rest : List Char) :
    (cut context c rest).Returned (cut context c (withReturns rest)) := by
  have hfeed : c ≠ '\n' ∧ c ≠ '\r' := by
    constructor <;>
    · rintro rfl
      exact absurd hc (by decide)
  have hopen := Text.isPrefixOf_withReturns (p := ['!', '-', '-']) (by decide) (by decide) rest
  have hclose := Text.isPrefixOf_withReturns (p := ['-', '>']) (by decide) (by decide) rest
  have harrow := head?_withReturns (c := '>') (by decide) (by decide) rest
  have htwice := head?_withReturns hfeed.2 hfeed.1 rest
  have htail (d : Char) (hd : d ≠ '\n') (h : rest.head? = some d) :
      (withReturns rest).tail = withReturns rest.tail := by
    obtain ⟨rest, rfl⟩ := List.head?_eq_some_iff.1 h
    rw [withReturns_cons hd]
    rfl
  rw [cut_sign context hc, cut_sign context hc]
  simp only [hopen, hclose, harrow, htwice, isDigit_head_withReturns]
  split
  · exact cutLine_returned rfl hfeed.1 rest
  split
  · exact cutLine_returned rfl hfeed.1 rest
  split
  · exact cutNumber_returned hfeed.1 rest
  split
  · next h =>
    rw [htail c hfeed.1 h.2]
    exact Cut.returned rfl (by simp [withReturns_cons hfeed.1]) rfl
  split
  · next h =>
    rw [htail '>' (by decide) h.2]
    exact Cut.returned rfl rfl rfl
  · exact Cut.returned_one rfl hfeed.1 rest

/-- One lexeme of a text with returns. -/
theorem cut_returned (context : Context) (hc : c ≠ '\n') (hreturn : '\r' ∉ rest)
    (hregex : (cut context c rest).lexeme = .regex → '\n' ∉ (cut context c rest).text) :
    (cut context c rest).Returned (cut context c (withReturns rest)) := by
  by_cases hsign : c ∈ signs
  · exact cut_returned_of_sign context hsign rest
  by_cases hslash : c = '/'
  · subst hslash
    rw [cut_slash] at hregex ⊢
    rw [cut_slash]
    exact cutSlash_returned context rest hregex
  simp only [cut_other context hsign, if_neg hc, if_neg hslash]
  split
  · exact Cut.returned_one rfl hc rest
  split
  · next hquote => exact cutString_returned hquote hreturn
  split
  · exact cutTemplate_returned (fun _ => rfl) hc rest
  split
  · exact cutTemplate_returned (fun _ => rfl) hc rest
  split
  · exact Cut.returned_one rfl hc rest
  split
  · exact Cut.returned_one rfl hc rest
  split
  · exact cutNumber_returned hc rest
  split
  · exact cutRun_returned (fun _ => rfl) hc (by decide) (by decide) rest
  split
  · exact cutWide_returned hc rest
  · exact Cut.returned_one rfl hc rest

end
end ParseGoal.Ecma
