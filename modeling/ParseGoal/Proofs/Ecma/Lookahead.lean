import ParseGoal.Ecma.State
import ParseGoal.Proofs.Ecma.Cut

/-!
Looking ahead goes lexeme by lexeme: what it says of a text depends on the first lexeme, and past
blanks and comments on what it says of the text after it.
-/
namespace ParseGoal.Ecma

/-! Comments are passed over as they are cut. -/

theorem nextSignificantIn_lineComment (text : List Char) :
    nextSignificantIn .lineComment text = nextSignificant (afterLine text) := by
  induction text with
  | nil =>
    rw [nextSignificantIn]
    rfl
  | cons c text ih =>
    rw [nextSignificantIn]
    by_cases hc : c = '\n'
    · have hafter : afterLine (c :: text) = c :: text :=
        List.dropWhile_cons_of_neg (by simpa using hc)
      rw [hafter, if_pos hc, nextSignificant_blank (.inl hc), nextSignificant]
    · have hafter : afterLine (c :: text) = afterLine text :=
        List.dropWhile_cons_of_pos (by simpa using hc)
      rw [hafter, if_neg hc, ih]

theorem nextSignificantIn_blockComment (text : List Char) :
    nextSignificantIn .blockComment text =
      (commentBody text).bind fun (_, after) => nextSignificant after := by
  fun_induction commentBody text with
  | case1 =>
    rw [nextSignificantIn]
    rfl
  | case2 c rest h =>
    obtain ⟨rfl, hhead⟩ := h
    obtain ⟨rest, rfl⟩ := List.head?_eq_some_iff.1 hhead
    rw [nextSignificantIn, if_pos rfl, if_pos rfl]
    rfl
  | case3 c rest h ih =>
    rw [Option.bind_map]
    refine Eq.trans ?_ ih
    cases rest with
    | nil => simp [nextSignificantIn]
    | cons d rest =>
      rw [nextSignificantIn]
      simp only [List.head?_cons, Option.some.injEq] at h
      grind

theorem operandFollowsIn_blockComment (text : List Char) :
    operandFollowsIn .blockComment text =
      match commentBody text with
      | some (body, after) => !body.contains '\n' && operandFollows after
      | none => false := by
  fun_induction commentBody text with
  | case1 => rw [operandFollowsIn]
  | case2 c rest h =>
    obtain ⟨rfl, hhead⟩ := h
    obtain ⟨rest, rfl⟩ := List.head?_eq_some_iff.1 hhead
    rw [operandFollowsIn, if_neg (by decide), if_pos rfl, if_pos rfl]
    rfl
  | case3 c rest h ih =>
    have hcons : operandFollowsIn .blockComment (c :: rest) =
        (c != '\n' && operandFollowsIn .blockComment rest) := by
      cases rest with
      | nil => simp [operandFollowsIn]
      | cons d rest =>
        rw [operandFollowsIn]
        simp only [List.head?_cons, Option.some.injEq] at h
        grind
    rw [hcons, ih]
    cases commentBody rest with
    | none => simp
    | some found => 
      dsimp only [Option.map_some]
      rw [List.contains_cons, Bool.not_or, Bool.and_assoc, bne_comm]
      rfl

theorem nextSignificant_slash (context : Context) (rest : List Char) :
    nextSignificant ('/' :: rest) =
      match (cutSlash context rest).lexeme with
      | .lineComment | .blockComment _ => nextSignificant (cutSlash context rest).rest
      | .openComment => none
      | _ => some '/' := by
  have hcons (d : Char) (rest : List Char) : nextSignificant ('/' :: d :: rest) =
      if d = '/' then nextSignificantIn .lineComment rest
      else if d = '*' then nextSignificantIn .blockComment rest else some '/' := by
    rw [nextSignificant, nextSignificantIn, if_neg (by decide), if_pos rfl]
  fun_cases cutSlash context rest with
  | case1 h =>
    obtain ⟨rest, rfl⟩ := List.head?_eq_some_iff.1 h
    rw [hcons, if_pos rfl, nextSignificantIn_lineComment]
    rfl
  | case2 _ h body after hbody =>
    obtain ⟨rest, rfl⟩ := List.head?_eq_some_iff.1 h
    rw [List.tail_cons] at hbody
    rw [hcons, if_neg (by decide), if_pos rfl, nextSignificantIn_blockComment, hbody]
    rfl
  | case3 _ h hbody =>
    obtain ⟨rest, rfl⟩ := List.head?_eq_some_iff.1 h
    rw [List.tail_cons] at hbody
    rw [hcons, if_neg (by decide), if_pos rfl, nextSignificantIn_blockComment, hbody]
    rfl
  | case4 | case5 | case6 | case7 =>
    cases rest with
    | nil => rw [nextSignificant, nextSignificantIn, if_neg (by decide), if_pos rfl]
    | cons d rest => rw [hcons, if_neg (by simp_all), if_neg (by simp_all)]

theorem operandFollows_slash (context : Context) (rest : List Char) :
    operandFollows ('/' :: rest) =
      match (cutSlash context rest).lexeme with
      | .blockComment multiline => !multiline && operandFollows (cutSlash context rest).rest
      | _ => false := by
  have hcons (d : Char) (rest : List Char) : operandFollows ('/' :: d :: rest) =
      if d = '*' then operandFollowsIn .blockComment rest else false := by
    rw [operandFollows, operandFollowsIn, if_neg (by decide), if_pos rfl]
  fun_cases cutSlash context rest with
  | case2 _ h body after hbody =>
    obtain ⟨rest, rfl⟩ := List.head?_eq_some_iff.1 h
    rw [List.tail_cons] at hbody
    rw [hcons, if_pos rfl, operandFollowsIn_blockComment, hbody]
  | case3 _ h hbody =>
    obtain ⟨rest, rfl⟩ := List.head?_eq_some_iff.1 h
    rw [List.tail_cons] at hbody
    rw [hcons, if_pos rfl, operandFollowsIn_blockComment, hbody]
  | case1 | case4 | case5 | case6 | case7 =>
    cases rest with
    | nil => simp [operandFollows, operandFollowsIn]
    | cons d rest => rw [hcons, if_neg (by simp_all)]

/-- The characters that a scan asks for when it looks ahead. -/
def asked : List Char := ['(', '.', ':', '{']

/-- Two texts that show the same to a scan that asks which character stands next. -/
def NextAlike (text other : List Char) : Prop :=
  ∀ c ∈ asked, nextSignificant text = some c ↔ nextSignificant other = some c

/-- Two texts that a scan cannot tell apart by looking ahead. -/
structure Alike (text other : List Char) : Prop where
  next : NextAlike text other
  operand : operandFollows text = operandFollows other

theorem NextAlike.refl (text : List Char) : NextAlike text text := fun _ _ => .rfl

theorem Alike.refl (text : List Char) : Alike text text := ⟨.refl text, rfl⟩

/-- Looking ahead ends at a visible character that starts no word. -/
theorem Alike.of_visible {c : Char} (hblank : ¬ (c = '\n' ∨ isInlineBlank c = true)) (hslash : c ≠ '/')
    (hword : isIdentifierStart c = false) (rest other : List Char) : Alike (c :: rest) (c :: other) where
  next d _ := by rw [nextSignificant_visible hblank hslash, nextSignificant_visible hblank hslash]
  operand := by
    have hinline : ¬ (c = ' ' ∨ c = '\t') := by
      rintro (rfl | rfl) <;> exact hblank (.inr rfl)
    rw [operandFollows_visible hinline hslash, operandFollows_visible hinline hslash, hword]
    rfl

/-- What a scan does not ask for might as well not be there. -/
theorem Alike.of_nextSignificant {text : List Char} {c : Char} (hnext : nextSignificant text = some c)
    (hc : c ∉ asked) (hoperand : operandFollows text = false) : Alike [] text where
  next d hd := by
    have hnone : nextSignificant [] = none := rfl
    have hne : c ≠ d := by
      rintro rfl
      exact hc hd
    simp [hnext, hnone, hne]
  operand := hoperand.symm

/-- Blanks, line breaks and comments: what looking ahead may pass over. -/
def Lexeme.isTrivia : Lexeme → Bool
  | .lineBreak | .blank | .lineComment | .blockComment _ => true
  | _ => false

theorem isTrivia_of_blank {c : Char} (hc : c = '\n' ∨ isInlineBlank c = true) (context : Context)
    (rest : List Char) : (cut context c rest).lexeme.isTrivia = true := by
  by_cases h : c = '\n'
  · rw [cut, if_pos h]
    rfl
  · rw [cut, if_neg h, if_pos (hc.resolve_left h)]
    rfl

section

variable {c : Char} {rest other : List Char} (context : Context)
  (hlexeme : (cut context c rest).lexeme = (cut context c other).lexeme)

include hlexeme

/-- Behind a lexeme that is not passed over, a text does not matter to what stands next. -/
theorem NextAlike.cons (h : (cut context c rest).lexeme.isTrivia = true →
    NextAlike (cut context c rest).rest (cut context c other).rest) :
    NextAlike (c :: rest) (c :: other) := by
  intro d hd
  by_cases hslash : c = '/'
  · subst hslash
    rw [cut_slash, cut_slash] at hlexeme h
    rw [nextSignificant_slash context rest, nextSignificant_slash context other, hlexeme]
    rw [hlexeme] at h
    split
    · next hcomment => exact h (by rw [hcomment]; rfl) d hd
    · next hcomment => exact h (by rw [hcomment]; rfl) d hd
    · exact .rfl
    · exact .rfl
  by_cases hblank : c = '\n' ∨ isInlineBlank c = true
  · have hrest := h (isTrivia_of_blank hblank context rest)
    rw [cut_rest_of_blank hblank, cut_rest_of_blank hblank] at hrest
    rw [nextSignificant_blank hblank, nextSignificant_blank hblank]
    exact hrest d hd
  · rw [nextSignificant_visible hblank hslash, nextSignificant_visible hblank hslash]

/-- The same for whether an operand follows. -/
theorem operandFollows_cons (h : (cut context c rest).lexeme.isTrivia = true →
    operandFollows (cut context c rest).rest = operandFollows (cut context c other).rest) :
    operandFollows (c :: rest) = operandFollows (c :: other) := by
  by_cases hslash : c = '/'
  · subst hslash
    rw [cut_slash, cut_slash] at hlexeme h
    rw [operandFollows_slash context rest, operandFollows_slash context other, hlexeme]
    rw [hlexeme] at h
    split
    · next hcomment => rw [h (by rw [hcomment]; rfl)]
    · rfl
  by_cases hc : c = ' ' ∨ c = '\t'
  · have hblank : c = '\n' ∨ isInlineBlank c = true := .inr (by rcases hc with rfl | rfl <;> rfl)
    have hrest := h (isTrivia_of_blank hblank context rest)
    rw [cut_rest_of_blank hblank, cut_rest_of_blank hblank] at hrest
    rw [operandFollows_blank hc, operandFollows_blank hc, hrest]
  · rw [operandFollows_visible hc hslash, operandFollows_visible hc hslash]
    split
    · next hstart =>
      rw [cut_identifier hstart, cut_identifier hstart] at hlexeme
      have hrun : rest.takeWhile isWordPart = other.takeWhile isWordPart := by
        simpa [cutRun, String.ofList_inj] using hlexeme
      have hpart (text : List Char) : text.takeWhile isIdentifierPart =
          (text.takeWhile isWordPart).takeWhile isIdentifierPart := by
        rw [List.takeWhile_takeWhile]
        congr 1
        ext c
        simpa using isWordPart_of_isIdentifierPart
      rw [hpart rest, hpart other, hrun]
    · rfl

/-- Texts that start with the same lexeme are alike if what follows it is. -/
theorem Alike.cons (h : Alike (cut context c rest).rest (cut context c other).rest) :
    Alike (c :: rest) (c :: other) :=
  ⟨.cons context hlexeme fun _ => h.next, operandFollows_cons context hlexeme fun _ => h.operand⟩

end

/-! What a token asks. -/

/-- Tokens behind which a scan asks which character stands next. -/
def Token.asksNext : Token → Bool
  | .word text => text == "import" || text == "with" || strictWords.contains text
  | .arrow => true
  | _ => false

/-- Tokens behind which a scan asks whether an operand follows. -/
def Token.asksOperand : Token → Bool
  | .word text => text == "await"
  | _ => false

/-- Two texts that a scan cannot tell apart by looking ahead from a token. -/
structure AlikeAfter (previous : Option Token) (text other : List Char) : Prop where
  next : previous.any Token.asksNext = true → NextAlike text other
  operand : previous.any Token.asksOperand = true → operandFollows text = operandFollows other

theorem Alike.after {text other : List Char} (h : Alike text other) (previous : Option Token) :
    AlikeAfter previous text other := ⟨fun _ => h.next, fun _ => h.operand⟩

/-- Behind a lexeme that is not passed over, a text does not matter to any token. -/
theorem AlikeAfter.cons {previous : Option Token} (context : Context) {c : Char} {rest other : List Char}
    (hlexeme : (cut context c rest).lexeme = (cut context c other).lexeme)
    (h : (cut context c rest).lexeme.isTrivia = true →
      AlikeAfter previous (cut context c rest).rest (cut context c other).rest) :
    AlikeAfter previous (c :: rest) (c :: other) where
  next hasks := .cons context hlexeme fun htrivia => (h htrivia).next hasks
  operand hasks := operandFollows_cons context hlexeme fun htrivia => (h htrivia).operand hasks

theorem State.namesBinding_congr (s : State) {text other : List Char} (h : NextAlike text other) :
    s.namesBinding other = s.namesBinding text := by
  have hround : (nextSignificant other != some '(') = (nextSignificant text != some '(') := by
    rw [Bool.eq_iff_iff]
    simpa using not_congr (h '(' (by decide)).symm
  simp only [State.namesBinding, h ':' (by decide), hround]

/-- A word runs into the same in front of texts that it cannot tell apart. -/
theorem State.restriction?_congr (s : State) {word : String} {text other : List Char}
    (h : AlikeAfter (some (.word word)) text other) : s.restriction? word other = s.restriction? word text := by
  have hnext (hasks : Token.asksNext (.word word) = true) : NextAlike text other := h.next hasks
  rw [State.restriction?, State.restriction?]
  by_cases himport : word = "import"
  · subst himport
    rw [if_pos rfl, if_pos rfl]
    simp only [hnext rfl '(' (by decide), hnext rfl '.' (by decide)]
  by_cases hwith : word = "with"
  · subst hwith
    have hround := hnext rfl '(' (by decide)
    simp only [String.reduceEq, if_false, if_true, hround]
  by_cases hawait : word = "await"
  · subst hawait
    have hoperand := h.operand rfl
    simp only [String.reduceEq, if_false, if_true, hoperand]
  by_cases hstrict : strictWords.contains word = true
  · have hasks : Token.asksNext (.word word) = true := by rw [Token.asksNext, hstrict, Bool.or_true]
    simp only [if_neg himport, if_neg hwith, if_neg hawait, s.namesBinding_congr (hnext hasks)]
  · simp only [if_neg himport, if_neg hwith, if_neg hawait, hstrict, Bool.false_eq_true, false_and]

end ParseGoal.Ecma
