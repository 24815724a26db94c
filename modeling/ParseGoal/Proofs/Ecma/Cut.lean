import Mathlib.Data.List.Infix
import Mathlib.Data.List.TakeWhile
import Mathlib.Tactic.ByContra
import ParseGoal.Ecma.Lexeme
import ParseGoal.Proofs.Ecma.Brackets
import ParseGoal.Proofs.Ecma.Literal

/-!
A lexeme stays the same when something else follows it, as long as that cannot go on with it.
-/
namespace ParseGoal.Ecma

/-- Characters that no lexeme goes on with, outside literals and comments. -/
def isInert (c : Char) : Bool :=
  !isWordPart c && !(['/', '*', '=', '!', '-', '>', '+', '.'].contains c)

/-- Characters behind which no lexeme before them looks. -/
def barriers : List Char := ['/', '.']

/-- Whatever `other` starts with before its first inert character, up to its first barrier, `rest` starts with too. -/
def Covers (rest other : List Char) : Prop :=
  ∀ p : List Char, (∀ c ∈ p, isInert c = false) → (∀ c ∈ barriers, c ∉ p.dropLast) → p <+: other → p <+: rest

theorem Covers.append (before rest : List Char) {c : Char} (hc : isInert c = true) (more : List Char) :
    Covers (before ++ rest) (before ++ c :: more) := by
  intro p hp _ hstarts
  rcases List.prefix_or_prefix_of_prefix hstarts (List.prefix_append before _) with h | ⟨q, rfl⟩
  · exact h.trans (List.prefix_append ..)
  · cases q with
    | nil => simp
    | cons d q =>
      have hd : d = c := by
        have := (List.prefix_append_right_inj before).1 hstarts
        simpa using (List.cons_prefix_cons.1 this).1
      simpa [hd, hc] using hp d

/-- No lexeme before a barrier looks at what follows the barrier. -/
theorem Covers.append_barrier {c : Char} (hc : c ∈ barriers) (before rest other : List Char) :
    Covers (before ++ c :: rest) (before ++ c :: other) := by
  intro p _ hbarrier hstarts
  rcases List.prefix_or_prefix_of_prefix hstarts (List.prefix_append before _) with h | ⟨q, rfl⟩
  · exact h.trans (List.prefix_append ..)
  · rw [List.prefix_append_right_inj] at hstarts ⊢
    match q with
    | [] => exact List.nil_prefix
    | [d] => exact List.cons_prefix_cons.2 ⟨(List.cons_prefix_cons.1 hstarts).1, List.nil_prefix⟩
    | d :: e :: q =>
      obtain rfl := (List.cons_prefix_cons.1 hstarts).1
      have hmem := hbarrier d hc
      rw [List.dropLast_append_of_ne_nil (List.cons_ne_nil _ _)] at hmem
      exact absurd (List.mem_append_right _ List.mem_cons_self) hmem

theorem Covers.cons {rest other : List Char} (h : Covers rest other) (c : Char) :
    Covers (c :: rest) (c :: other) := by
  intro p hp hbarrier hstarts
  cases p with
  | nil => exact List.nil_prefix
  | cons d p =>
    obtain ⟨rfl, htail⟩ := List.cons_prefix_cons.1 hstarts
    have hbarrier' : ∀ c ∈ barriers, c ∉ p.dropLast := fun c hc hmem => hbarrier c hc (by
      rw [List.dropLast_cons_of_ne_nil (by rintro rfl; exact absurd hmem List.not_mem_nil)]
      exact List.mem_cons_of_mem _ hmem)
    exact List.cons_prefix_cons.2
      ⟨rfl, h p (fun c hc => hp c (List.mem_cons_of_mem _ hc)) hbarrier' htail⟩

theorem Covers.append_left {rest other : List Char} (h : Covers rest other) (before : List Char) :
    Covers (before ++ rest) (before ++ other) := by
  induction before with
  | nil => exact h
  | cons c before ih => exact ih.cons c

theorem Covers.head? {rest other : List Char} (h : Covers rest other) {c : Char}
    (hc : isInert c = false) (hhead : other.head? = some c) : rest.head? = some c := by
  obtain ⟨other, rfl⟩ := List.head?_eq_some_iff.1 hhead
  obtain ⟨rest, rfl⟩ := h [c] (by simpa using hc) (fun _ _ => List.not_mem_nil) ⟨other, rfl⟩
  rfl

/-- A run of characters that are not inert ends where it ended. -/
theorem Covers.takeWhile {p : Char → Bool} (hp : ∀ c, p c = true → isInert c = false)
    {rest other : List Char} (h : Covers (rest.dropWhile p) other) : 
    (rest.takeWhile p ++ other).takeWhile p = rest.takeWhile p ∧
      (rest.takeWhile p ++ other).dropWhile p = other := by
  have hother : other.head?.all (fun c => !p c) = true := by
    cases other with
    | nil => rfl
    | cons c other =>
      simp only [List.head?_cons, Option.all_some, Bool.not_eq_true']
      by_contra hc
      have := h.head? (hp c (by simpa using hc)) rfl
      have := List.head?_dropWhile_not p rest
      simp_all
  rw [List.takeWhile_append_of_pos (fun c hc => List.mem_takeWhile_imp hc), List.dropWhile_append_of_pos (fun c hc => List.mem_takeWhile_imp hc)]
  cases other <;> simp_all
  
theorem isInert_eq_false {c : Char} : isInert c = false ↔
    isWordPart c = true ∨ c ∈ ['/', '*', '=', '!', '-', '>', '+', '.'] := by
  simp [isInert]
  grind

theorem toNat_lt_of_isIdentifierPart {c : Char} (h : isIdentifierPart c = true) : c.toNat < 0x80 := by
  by_contra hc
  have hne (d : Char) (hd : d.toNat < 0x80) : c ≠ d := by
    rintro rfl
    exact hc hd
  have hletter : c.isAlpha = (decide (65 ≤ c.val ∧ c.val ≤ 90) || (97 ≤ c.val && c.val ≤ 122)) := rfl
  have hval : c.val.toNat = c.toNat := rfl
  simp [isIdentifierPart, isIdentifierStart, hletter, Char.isDigit, UInt32.le_iff_toNat_le, hval,
    hne] at h
  omega

theorem isWordPart_of_isIdentifierPart {c : Char} (h : isIdentifierPart c = true) :
    isWordPart c = true := by
  rw [isWordPart, if_pos (toNat_lt_of_isIdentifierPart h), h]

theorem isInert_of_isWordPart {c : Char} (h : isWordPart c = true) : isInert c = false :=
  isInert_eq_false.2 (.inl h)

theorem isInert_of_isIdentifierPart {c : Char} (h : isIdentifierPart c = true) : isInert c = false :=
  isInert_of_isWordPart (isWordPart_of_isIdentifierPart h)

/-- What a number goes on with. -/
theorem isInert_of_number {c : Char} {p : Prop} (h : c.isAlphanum = true ∨ c = '_' ∨ c = '.' ∨
    ((c = '+' ∨ c = '-') ∧ p)) : isInert c = false := by
  rcases h with h | rfl | rfl | ⟨rfl | rfl, -⟩
  · exact isInert_of_isIdentifierPart (by
      simp only [Char.isAlphanum, Bool.or_eq_true] at h
      simp only [isIdentifierPart, isIdentifierStart, Bool.or_eq_true]
      tauto)
  all_goals decide

theorem not_inert_of_mem_numberTail {hexadecimal : Bool} {before : Char} {text : List Char} :
    ∀ c ∈ (numberTail hexadecimal before text).1, isInert c = false := by
  fun_induction numberTail hexadecimal before text with
  | case1 | case3 => simp
  | case2 before c rest hc tail after heq ih =>
    rw [heq] at ih
    exact List.forall_mem_cons.2 ⟨isInert_of_number hc, ih⟩

theorem numberTail_covers {hexadecimal : Bool} {before : Char} {text other : List Char}
    (h : Covers (numberTail hexadecimal before text).2 other) :
    numberTail hexadecimal before ((numberTail hexadecimal before text).1 ++ other) =
      ((numberTail hexadecimal before text).1, other) := by
  fun_induction numberTail hexadecimal before text with
  | case1 before =>
    cases other with
    | nil => rfl
    | cons c other =>
      rw [List.nil_append, numberTail, if_neg]
      intro hc
      have := h.head? (isInert_of_number hc) rfl
      simp at this
  | case2 before c rest hc tail after heq ih =>
    dsimp only at h ⊢
    rw [List.cons_append, numberTail, if_pos hc]
    simp [heq] at ih
    rw [ih h]
  | case3 before c rest hc =>
    cases other with
    | nil => rfl
    | cons d other =>
      rw [List.nil_append, numberTail, if_neg]
      intro hd
      have : c = d := by simpa using h.head? (isInert_of_number hd) rfl
      exact hc (this ▸ hd)

theorem Covers.isPrefixOf {rest other p : List Char} (h : Covers rest other)
    (hp : p.any isInert = false) (hbarrier : p.dropLast.any barriers.contains = false)
    (hstarts : p.isPrefixOf other = true) :
    p.isPrefixOf rest = true :=
  have hall : ∀ c ∈ p, isInert c = false := fun c hc =>
    Bool.eq_false_iff.2 (List.any_eq_false.1 hp c hc)
  have hnone : ∀ c ∈ barriers, c ∉ p.dropLast := fun c hc hmem =>
    List.any_eq_false.1 hbarrier c hmem (List.contains_iff_mem.2 hc)
  List.isPrefixOf_iff_prefix.2 (h p hall hnone (List.isPrefixOf_iff_prefix.1 hstarts))

theorem numberTail_head? {hexadecimal : Bool} {before : Char} {text other : List Char}
    (h : Covers (numberTail hexadecimal before text).2 other) {c : Char} (hc : c.isAlphanum = true) :
    ((numberTail hexadecimal before text).1 ++ other).head? = some c ↔ text.head? = some c := by
  constructor
  · intro hhead
    have hcovers := h.append_left (numberTail hexadecimal before text).1
    rw [numberTail_append] at hcovers
    exact hcovers.head? (isInert_of_number (p := True) (.inl hc)) hhead
  · intro hhead
    obtain ⟨text, rfl⟩ := List.head?_eq_some_iff.1 hhead
    rw [numberTail, if_pos (.inl hc)]
    rfl

theorem head?_isDigit {text : List Char} : (text.head?.map Char.isDigit).getD false = true ↔
    ∃ c : Char, c.isDigit = true ∧ text.head? = some c := by
  cases text <;> simp

theorem isAlphanum_of_isDigit {c : Char} (h : c.isDigit = true) : c.isAlphanum = true := by
  simp [Char.isAlphanum, h]

/-- Neither a literal nor a comment whose end is missing. -/
def Lexeme.isWhole : Lexeme → Bool
  | .openComment | .openString _ | .openRegex | .template none | .templateTail none => false
  | _ => true

/-- Comments that go on to the end of their line. -/
def Lexeme.fillsLine : Lexeme → Bool
  | .lineComment | .htmlComment => true
  | _ => false

/-- The same lexeme in front of another text. A comment that fills its line takes the line's rest. -/
def Cut.onto (piece : Cut) (other : List Char) : Cut :=
  if piece.lexeme.fillsLine then
    ⟨piece.lexeme, piece.text ++ lineText other, afterLine other⟩
  else ⟨piece.lexeme, piece.text, other⟩

/--
Cutting the text of a lexeme again, in front of something else, gives the same lexeme, provided that
its end is there and that what comes after cannot go on with it.
-/
def Cut.IsStable (piece : Cut) (again : List Char → Cut) : Prop :=
  piece.lexeme.isWhole = true → ∀ other, Covers piece.rest other →
    again (piece.text.tail ++ other) = piece.onto other

theorem cut_text (context : Context) (c : Char) (rest : List Char) :
    (cut context c rest).text = c :: (cut context c rest).text.tail := by
  obtain ⟨more, htext, -⟩ := cut_splits context c rest
  rw [htext, List.tail_cons]

theorem Cut.Splits.covers {piece : Cut} {c : Char} {rest other : List Char}
    (hsplits : piece.Splits c rest) (h : Covers piece.rest other) :
    Covers rest (piece.text.tail ++ other) := by
  obtain ⟨more, htext, hrest⟩ := hsplits
  rw [htext, List.tail_cons, ← hrest]
  exact h.append_left more

theorem Cut.isStable_one (lexeme : Lexeme) (c : Char) (rest : List Char)
    {again : List Char → Cut} (hline : lexeme.fillsLine = false)
    (h : ∀ other, Covers rest other → again other = ⟨lexeme, [c], other⟩) :
    Cut.IsStable ⟨lexeme, [c], rest⟩ again := by
  intro hwhole other hcovers
  rw [Cut.onto, hline]
  exact h other hcovers

theorem lineText_append (text other : List Char) :
    lineText (lineText text ++ other) = lineText text ++ lineText other :=
  List.takeWhile_append_of_pos fun _ => List.mem_takeWhile_imp

theorem afterLine_append (text other : List Char) :
    afterLine (lineText text ++ other) = afterLine other :=
  List.dropWhile_append_of_pos fun _ => List.mem_takeWhile_imp

theorem isPrefixOf_lineText {p rest : List Char} (hp : '\n' ∉ p) (h : p.isPrefixOf rest = true)
    (other : List Char) : p.isPrefixOf (lineText rest ++ other) = true := by
  obtain ⟨after, rfl⟩ := List.isPrefixOf_iff_prefix.1 h
  have hline : lineText (p ++ after) = p ++ lineText after :=
    List.takeWhile_append_of_pos fun c hc => by
      rw [bne_iff_ne]
      rintro rfl
      exact hp hc
  rw [List.isPrefixOf_iff_prefix, hline, List.append_assoc]
  exact List.prefix_append ..

/-- Comments that fill their line are told by what they start with. -/
theorem cutLine_isStable {lexeme : Lexeme} (hlexeme : lexeme.fillsLine = true) (c : Char)
    {p rest : List Char} (hp : '\n' ∉ p) (h : p.isPrefixOf rest = true) {again : List Char → Cut}
    (hagain : ∀ text, p.isPrefixOf text = true →
      again text = ⟨lexeme, c :: lineText text, afterLine text⟩) :
    Cut.IsStable ⟨lexeme, c :: lineText rest, afterLine rest⟩ again := by
  intro hwhole other _
  rw [List.tail_cons, hagain _ (isPrefixOf_lineText hp h other), lineText_append, afterLine_append,
    Cut.onto, if_pos hlexeme]
  rfl

theorem cutSlash_isStable (context : Context) (rest : List Char) :
    (cutSlash context rest).IsStable (cutSlash context) := by
  fun_cases cutSlash context rest with
  | case1 h =>
    have hstarts (text : List Char) (htext : ['/'].isPrefixOf text = true) : text.head? = some '/' := by
      obtain ⟨after, rfl⟩ := List.isPrefixOf_iff_prefix.1 htext
      rfl
    obtain ⟨rest, rfl⟩ := List.head?_eq_some_iff.1 h
    exact cutLine_isStable rfl '/' (p := ['/']) (by decide) rfl fun text htext => by
      rw [cutSlash, if_pos (hstarts text htext)]
  | case2 _ _ body after hbody =>
    intro hwhole other _
    change cutSlash context ('*' :: (body ++ other)) = _
    rw [cutSlash, if_neg (by simp), if_pos (by rfl), List.tail_cons, commentBody_local hbody]
    rfl
  | case3 | case5 => nofun
  | case4 hslash hstar hregex body after hbody =>
    intro hwhole other hcovers
    obtain ⟨htake, hdrop⟩ := hcovers.takeWhile fun c => isInert_of_isIdentifierPart
    have hall := hcovers.append_left (body ++ after.takeWhile isIdentifierPart)
    rw [List.append_assoc, List.takeWhile_append_dropWhile, regexBody_append hbody] at hall
    rw [List.tail_cons, cutSlash, if_neg fun h => hslash (hall.head? (by decide) h),
      if_neg fun h => hstar (hall.head? (by decide) h), if_pos hregex, List.append_assoc,
      regexBody_local hbody]
    dsimp only
    rw [htake, hdrop]
    rfl
  | case6 _ _ hregex h =>
    intro hwhole other _
    change cutSlash context ('=' :: other) = _
    rw [cutSlash, if_neg (by simp), if_neg (by simp), if_neg hregex, if_pos (by rfl)]
    rfl
  | case7 hslash hstar hregex hequal =>
    refine Cut.isStable_one _ _ _ rfl fun other hcovers => ?_
    rw [cutSlash, if_neg fun h => hslash (hcovers.head? (by decide) h),
      if_neg fun h => hstar (hcovers.head? (by decide) h), if_neg hregex,
      if_neg fun h => hequal (hcovers.head? (by decide) h)]

theorem cutString_isStable (quote : Char) (rest : List Char) :
    (cutString quote rest).IsStable (cutString quote) := by
  fun_cases cutString quote rest with
  | case1 parts after h =>
    intro hwhole other _
    rw [List.tail_cons, List.append_assoc, cutString]
    simp only [List.cons_append, List.nil_append]
    rw [stringParts_local h]
    rfl
  | case2 => nofun

theorem cutTemplate_isStable {lexeme : Option TemplateStop → Lexeme}
    (hopen : (lexeme none).isWhole = false) (hline : ∀ stop, (lexeme stop).fillsLine = false) (c : Char)
    (rest : List Char) : (cutTemplate lexeme c rest).IsStable (cutTemplate lexeme c) := by
  fun_cases cutTemplate lexeme c rest with
  | case1 stop body after h =>
    intro hwhole other _
    rw [List.tail_cons, cutTemplate, templateBody_local h, Cut.onto, hline]
    rfl
  | case2 => simp [Cut.IsStable, hopen]

theorem cutNumber_isStable (c : Char) (rest : List Char) :
    (cutNumber c rest).IsStable (cutNumber c) := by
  intro hwhole other hcovers
  have hhead (d : Char) (hd : d.isAlphanum = true) :
      ((cutNumber c rest).text.tail ++ other).head? = some d ↔ rest.head? = some d :=
    numberTail_head? hcovers hd
  have hdigit : ((((cutNumber c rest).text.tail ++ other).head?.map Char.isDigit).getD false = true) =
      ((rest.head?.map Char.isDigit).getD false = true) := by
    simp only [head?_isDigit, eq_iff_iff]
    exact exists_congr fun d => and_congr_right fun hd => hhead d (isAlphanum_of_isDigit hd)
  rw [cutNumber]
  simp only [hdigit, hhead 'x' rfl, hhead 'X' rfl]
  rw [show (cutNumber c rest).text.tail = (numberTail _ c rest).1 from rfl, numberTail_covers hcovers]
  rfl

theorem cutWord_isStable (c : Char) (rest : List Char) :
    (cutRun (.word ∘ String.ofList) c isWordPart rest).IsStable
      (cutRun (.word ∘ String.ofList) c isWordPart) := by
  intro hwhole other hcovers
  obtain ⟨htake, hdrop⟩ := hcovers.takeWhile fun _ => isInert_of_isWordPart
  dsimp only [cutRun, List.tail_cons]
  rw [htake, hdrop]
  rfl

theorem cutWide_isStable (c : Char) (rest : List Char) : (cutWide c rest).IsStable (cutWide c) := by
  unfold cutWide
  split
  · exact Cut.isStable_one _ _ _ rfl fun _ _ => rfl
  split
  · exact Cut.isStable_one _ _ _ rfl fun _ _ => rfl
  split
  · exact cutWord_isStable c rest
  · exact Cut.isStable_one _ _ _ rfl fun _ _ => rfl

/-- Characters of which the next ones tell what they start. -/
def signs : List Char := ['<', '-', '.', '+', '=']

theorem cut_sign (context : Context) {c : Char} (hc : c ∈ signs) (rest : List Char) :
    cut context c rest =
      if c = '<' ∧ ['!', '-', '-'].isPrefixOf rest then
        ⟨.htmlComment, c :: lineText rest, afterLine rest⟩
      else if c = '-' ∧ context.lineStart ∧ ['-', '>'].isPrefixOf rest then
        ⟨.htmlComment, c :: lineText rest, afterLine rest⟩
      else if c = '.' ∧ (rest.head?.map Char.isDigit).getD false then cutNumber c rest
      else if (c = '+' ∨ c = '-') ∧ rest.head? = some c then ⟨.update, [c, c], rest.tail⟩
      else if c = '=' ∧ rest.head? = some '>' then ⟨.arrow, ['=', '>'], rest.tail⟩
      else ⟨.punctuator c, [c], rest⟩ := by
  simp only [signs, List.mem_cons, List.not_mem_nil, or_false] at hc
  rcases hc with rfl | rfl | rfl | rfl | rfl <;>
    simp [cut, isInlineBlank, Delimiter.ofOpener?, Delimiter.ofCloser?, Char.isDigit, isIdentifierStart]

/-- Other characters tell by themselves. -/
theorem cut_other (context : Context) {c : Char} (hc : c ∉ signs) (rest : List Char) :
    cut context c rest =
      if c = '\n' then ⟨.lineBreak, [c], rest⟩
      else if isInlineBlank c then ⟨.blank, [c], rest⟩
      else if c = '/' then cutSlash context rest
      else if c = '\'' ∨ c = '"' then cutString c rest
      else if c = '\x60' then cutTemplate .template c rest
      else if c = '}' ∧ context.inSubstitution then cutTemplate .templateTail c rest
      else if let some d := Delimiter.ofOpener? c then ⟨.opener d, [c], rest⟩
      else if let some d := Delimiter.ofCloser? c then ⟨.closer d, [c], rest⟩
      else if c.isDigit then cutNumber c rest
      else if isIdentifierStart c then cutRun (.word ∘ String.ofList) c isWordPart rest
      else if 0x80 ≤ c.toNat then cutWide c rest
      else ⟨.punctuator c, [c], rest⟩ := by
  simp only [signs, List.mem_cons, not_or, List.not_mem_nil, not_false_eq_true, and_true] at hc
  have hcut := cut.eq_1 context c rest
  simp only [hc, false_and, if_false, or_self] at hcut
  exact hcut

theorem cut_isStable_of_sign (context : Context) {c : Char} (hc : c ∈ signs) (rest : List Char) :
    (cut context c rest).IsStable (cut context c) := by
  have cut_eq := cut_sign context hc
  by_cases h1 : c = '<' ∧ ['!', '-', '-'].isPrefixOf rest
  · rw [cut_eq, if_pos h1]
    exact cutLine_isStable rfl c (by decide) h1.2 fun text h => by rw [cut_eq, if_pos ⟨h1.1, h⟩]
  by_cases h2 : c = '-' ∧ context.lineStart ∧ ['-', '>'].isPrefixOf rest
  · rw [cut_eq, if_neg h1, if_pos h2]
    exact cutLine_isStable rfl c (by decide) h2.2.2 fun text h => by
      rw [cut_eq, if_neg (by simp [h2.1]), if_pos ⟨h2.1, h2.2.1, h⟩]
  -- No comment: then the text in front of `other` starts none either, and one more look decides.
  intro hwhole other hcovers
  have hall := (cut_splits context c rest).covers hcovers
  rw [cut_eq, if_neg fun h => h1 ⟨h.1, hall.isPrefixOf (by decide) (by decide) h.2⟩,
    if_neg fun h => h2 ⟨h.1, h.2.1, hall.isPrefixOf (by decide) (by decide) h.2.2⟩]
  generalize hpiece : cut context c rest = piece at *
  rw [cut_eq, if_neg h1, if_neg h2] at hpiece
  split at hpiece
  · next h3 =>
    subst hpiece
    have hdigit :
        (((cutNumber c rest).text.tail ++ other).head?.map Char.isDigit).getD false = true := by
      obtain ⟨d, hd, h⟩ := head?_isDigit.1 h3.2
      exact head?_isDigit.2 ⟨d, hd, (numberTail_head? hcovers (isAlphanum_of_isDigit hd)).2 h⟩
    rw [if_pos ⟨h3.1, hdigit⟩]
    exact cutNumber_isStable c rest hwhole other hcovers
  next h3 =>
  have hpoint : ¬ (c = '.' ∧
      ((piece.text.tail ++ other).head?.map Char.isDigit).getD false = true) := by
    rintro ⟨hpoint, hdigit⟩
    obtain ⟨d, hd, h⟩ := head?_isDigit.1 hdigit
    have hinert : isInert d = false := isInert_of_number (p := True) (.inl (isAlphanum_of_isDigit hd))
    exact h3 ⟨hpoint, head?_isDigit.2 ⟨d, hd, hall.head? hinert h⟩⟩
  rw [if_neg hpoint]
  split at hpiece
  · next h4 =>
    subst hpiece
    exact if_pos ⟨h4.1, rfl⟩
  next h4 =>
  have hinert : c = '+' ∨ c = '-' → isInert c = false := by rintro (rfl | rfl) <;> decide
  rw [if_neg fun h => h4 ⟨h.1, hall.head? (hinert h.1) h.2⟩]
  split at hpiece
  · next h5 =>
    subst hpiece
    exact if_pos ⟨h5.1, rfl⟩
  next h5 =>
  rw [if_neg fun h => h5 ⟨h.1, hall.head? (by decide) h.2⟩]
  subst hpiece
  rfl

theorem cut_isStable (context : Context) (c : Char) (rest : List Char) :
    (cut context c rest).IsStable (cut context c) := by
  by_cases hc : c ∈ signs
  · exact cut_isStable_of_sign context hc rest
  simp only [funext (cut_other context hc)]
  split
  · exact Cut.isStable_one _ _ _ rfl fun _ _ => rfl
  split
  · exact Cut.isStable_one _ _ _ rfl fun _ _ => rfl
  split
  · exact cutSlash_isStable context rest
  split
  · exact cutString_isStable c rest
  split
  · exact cutTemplate_isStable rfl (fun _ => rfl) c rest
  split
  · exact cutTemplate_isStable rfl (fun _ => rfl) c rest
  split
  · exact Cut.isStable_one _ _ _ rfl fun _ _ => rfl
  split
  · exact Cut.isStable_one _ _ _ rfl fun _ _ => rfl
  split
  · exact cutNumber_isStable c rest
  split
  · exact cutWord_isStable c rest
  split
  · exact cutWide_isStable c rest
  · exact Cut.isStable_one _ _ _ rfl fun _ _ => rfl

theorem lineText_afterLine (text : List Char) : lineText (afterLine text) = [] := by
  rw [lineText, List.takeWhile_eq_nil_iff]
  intro hpos
  have hhead := List.head?_dropWhile_not (· != '\n') text
  rw [← afterLine, List.head?_eq_getElem?, List.getElem?_eq_getElem hpos] at hhead
  simpa using hhead

/-- A comment that goes on to the end of its line leaves nothing of the line. -/
theorem lineText_cut_rest {context : Context} {c : Char} {rest : List Char}
    (h : (cut context c rest).lexeme.fillsLine = true) : lineText (cut context c rest).rest = [] := by
  have hafter (lexeme : Lexeme) (text : List Char) :
      lineText (Cut.rest ⟨lexeme, text, afterLine rest⟩) = [] := lineText_afterLine rest
  revert h
  fun_cases cut context c rest with
  | case3 =>
    fun_cases cutSlash context rest with
    | case1 => exact fun _ => hafter ..
    | _ => rintro ⟨⟩
  | case4 | case5 => exact fun _ => hafter ..
  | case6 =>
    rw [cutString]
    split <;> rintro ⟨⟩
  | case7 | case8 =>
    rw [cutTemplate]
    split <;> rintro ⟨⟩
  | case16 =>
    rw [cutWide]
    split_ifs <;> rintro ⟨⟩
  | _ => rintro ⟨⟩

/-- A word is its own text. -/
theorem text_cut_word {context : Context} {c : Char} {rest : List Char} {word : String}
    (h : (cut context c rest).lexeme = .word word) : (cut context c rest).text = word.toList := by
  have hrun : (Lexeme.word ∘ String.ofList) (c :: rest.takeWhile isWordPart) = .word word →
      c :: rest.takeWhile isWordPart = word.toList := by
    rintro ⟨⟩
    exact String.toList_ofList.symm
  revert h
  fun_cases cut context c rest with
  | case3 => fun_cases cutSlash context rest <;> rintro ⟨⟩
  | case6 =>
    rw [cutString]
    split <;> rintro ⟨⟩
  | case7 | case8 =>
    rw [cutTemplate]
    split <;> rintro ⟨⟩
  | case15 => exact hrun
  | case16 =>
    rw [cutWide]
    split_ifs
    · rintro ⟨⟩
    · rintro ⟨⟩
    · exact hrun
    · rintro ⟨⟩
  | _ => rintro ⟨⟩

/-! What some characters start. -/

theorem cut_rest_of_blank {c : Char} (hc : c = '\n' ∨ isInlineBlank c = true) (context : Context)
    (rest : List Char) : (cut context c rest).rest = rest := by
  by_cases h : c = '\n'
  · rw [cut, if_pos h]
  · rw [cut, if_neg h, if_pos (hc.resolve_left h)]

theorem cut_slash (context : Context) (rest : List Char) :
    cut context '/' rest = cutSlash context rest := by
  rw [cut, if_neg (by decide), if_neg (by decide), if_pos rfl]

theorem isIdentifierPart_of_isIdentifierStart {c : Char} (h : isIdentifierStart c = true) :
    isIdentifierPart c = true := by
  rw [isIdentifierPart, h, Bool.true_or]

/-- Letters that words start with start nothing else. -/
theorem cut_identifier {c : Char} (hc : isIdentifierStart c = true) (context : Context)
    (rest : List Char) : cut context c rest = cutRun (.word ∘ String.ofList) c isWordPart rest := by
  have hletters : ∀ n < 0x80, isIdentifierStart (Char.ofNat n) = true →
      Char.ofNat n ∉ signs ∧ Char.ofNat n ∉ ['\n', '/', '\'', '"', '\x60', '}'] ∧
      isInlineBlank (Char.ofNat n) = false ∧ Delimiter.ofOpener? (Char.ofNat n) = none ∧
      Delimiter.ofCloser? (Char.ofNat n) = none ∧ (Char.ofNat n).isDigit = false := by
    decide +kernel
  have hascii := toNat_lt_of_isIdentifierPart (isIdentifierPart_of_isIdentifierStart hc)
  specialize hletters c.toNat hascii
  rw [Char.ofNat_toNat] at hletters
  obtain ⟨hsigns, hspecial, hblank, hopener, hcloser, hdigit⟩ := hletters hc
  simp only [List.mem_cons, List.not_mem_nil, or_false, not_or] at hspecial
  obtain ⟨h1, h2, h3, h4, h5, h6⟩ := hspecial
  rw [cut_other context hsigns]
  simp only [h1, h2, h3, h4, h5, h6, hblank, hopener, hcloser, hdigit, hc, if_false, if_true,
    false_and, or_self, Bool.false_eq_true]

theorem takeWhile_append_stop {p : Char → Bool} {run rest : List Char} (hrun : ∀ c ∈ run, p c = true)
    (hrest : ∀ c ∈ rest.head?, p c = false) :
    (run ++ rest).takeWhile p = run ∧ (run ++ rest).dropWhile p = rest := by
  rw [List.takeWhile_append_of_pos hrun, List.dropWhile_append_of_pos hrun]
  cases rest with
  | nil => simp
  | cons c rest => simp [hrest c rfl]

/-- A word goes on up to what cannot go on with it. -/
theorem cut_word {c : Char} {more rest : List Char} (hc : isIdentifierStart c = true)
    (hmore : ∀ d ∈ more, isWordPart d = true) (hrest : ∀ d ∈ rest.head?, isWordPart d = false)
    (context : Context) :
    cut context c (more ++ rest) = ⟨.word (String.ofList (c :: more)), c :: more, rest⟩ := by
  obtain ⟨htake, hdrop⟩ := takeWhile_append_stop hmore hrest
  rw [cut_identifier hc, cutRun, htake, hdrop]
  rfl

/-- A text that is cut as one word. -/
def isWord (word : String) : Bool :=
  word.toList.head?.any isIdentifierStart && word.toList.all isWordPart

theorem exists_cut_of_isWord {word : String} {rest : List Char} (hword : isWord word = true)
    (hrest : ∀ d ∈ rest.head?, isWordPart d = false) (context : Context) :
    ∃ c more, word.toList = c :: more ∧ isIdentifierStart c = true ∧
      cut context c (more ++ rest) = ⟨.word word, c :: more, rest⟩ := by
  obtain ⟨hstart, hparts⟩ : word.toList.head?.any isIdentifierStart = true ∧
      word.toList.all isWordPart = true := by
    simpa only [isWord, Bool.and_eq_true] using hword
  cases htext : word.toList with
  | nil => simp [htext] at hstart
  | cons c more =>
    rw [htext] at hstart hparts
    have hmore : ∀ d ∈ more, isWordPart d = true := fun d hd =>
      List.all_eq_true.1 hparts d (List.mem_cons_of_mem _ hd)
    have hcut := cut_word hstart hmore hrest context
    rw [← htext, String.ofList_toList, htext] at hcut
    exact ⟨c, more, rfl, hstart, hcut⟩

/-- No character beyond ASCII starts anything that one in ASCII does. -/
theorem cut_wide {c : Char} (hc : 0x80 ≤ c.toNat) (context : Context) (rest : List Char) :
    cut context c rest = cutWide c rest := by
  have hne (d : Char) (hd : d.toNat < 0x80) : c ≠ d := by
    rintro rfl
    exact absurd hd (Nat.not_lt.2 hc)
  have hpart : ¬ isIdentifierPart c = true := fun h =>
    absurd (toNat_lt_of_isIdentifierPart h) (Nat.not_lt.2 hc)
  obtain ⟨hword, hdigit⟩ : isIdentifierStart c = false ∧ c.isDigit = false := by
    simpa [isIdentifierPart] using hpart
  rw [cut_other context (by simp [signs, hne])]
  simp [isInlineBlank, Delimiter.ofOpener?, Delimiter.ofCloser?, hne, hword, hdigit, hc]

/-! What a lexeme tells of the text there. -/

/-- What a lexeme that may be a fault, or that opens or closes something, says of the text there. -/
def Lexeme.Tells (context : Context) (c : Char) (rest : List Char) : Lexeme → Prop
  | .opener d => c = d.opener
  | .closer d => c = d.closer ∧ ¬ (c = '\x7d' ∧ context.inSubstitution = true)
  | .openString _ => c = '\'' ∨ c = '"'
  | .openRegex =>
    c = '/' ∧ rest.head? ≠ some '/' ∧ rest.head? ≠ some '*' ∧ context.regexAllowed = true
  | .template _ => c = '\x60'
  | .templateTail _ => context.inSubstitution = true
  | _ => True

theorem tells_cut (context : Context) (c : Char) (rest : List Char) :
    (cut context c rest).lexeme.Tells context c rest := by
  fun_cases cut context c rest with
  | case3 _ _ hc =>
    fun_cases cutSlash context rest with
    | case5 hline hblock hregex => exact ⟨hc, hline, hblock, hregex⟩
    | _ => trivial
  | case6 _ _ _ _ _ hc =>
    rw [cutString]
    split
    · trivial
    · exact hc
  | case7 _ _ _ _ _ _ hc =>
    rw [cutTemplate]
    split <;> exact hc
  | case8 _ _ _ _ _ _ _ hc =>
    rw [cutTemplate]
    split <;> exact hc.2
  | case9 => exact eq_opener ‹_›
  | case10 _ _ _ _ _ _ _ hc => exact ⟨eq_closer ‹_›, hc⟩
  | case16 =>
    rw [cutWide]
    split_ifs <;> trivial
  | _ => trivial

end ParseGoal.Ecma
