import Mathlib.Tactic.Common
import ParseGoal.Ecma.Literal
import ParseGoal.Text.Position

/-!
Literals and comments end by themselves: what is read of one stays the same whatever follows it.
-/
namespace ParseGoal.Ecma

section

variable {c d quote : Char} {rest : List Char} {inClass : Bool}

theorem stringParts_escape (h : ¬ (d = '\r' ∧ rest.head? = some '\n')) :
    stringParts quote ('\\' :: d :: rest) =
      (.escape d :: (stringParts quote rest).1, (stringParts quote rest).2) := by
  rw [stringParts.eq_def]
  dsimp only
  rw [if_pos rfl]
  split
  · next heq => simp at heq
  · next heq => simp_all
  · next heq =>
    simp only [List.cons.injEq] at heq
    obtain ⟨rfl, rfl⟩ := heq
    rfl

theorem stringParts_crlf : stringParts quote ('\\' :: '\r' :: '\n' :: rest) =
    (.crlf :: (stringParts quote rest).1, (stringParts quote rest).2) := by
  rw [stringParts.eq_def]
  rfl

theorem stringParts_plain (hslash : c ≠ '\\') (hquote : c ≠ quote) (hline : ¬ (c = '\n' ∨ c = '\r')) :
    stringParts quote (c :: rest) =
      (.plain c :: (stringParts quote rest).1, (stringParts quote rest).2) := by
  rw [stringParts.eq_def]
  dsimp only
  rw [if_neg hslash, if_neg hquote, if_neg hline]

theorem stringParts_close (hslash : quote ≠ '\\') :
    stringParts quote (quote :: rest) = ([], some rest) := by
  rw [stringParts.eq_def]
  dsimp only
  rw [if_neg hslash, if_pos rfl]

theorem templateBody_plain (hslash : c ≠ '\\') (hquote : c ≠ '\x60')
    (hhole : ¬ (c = '$' ∧ rest.head? = some '{')) : templateBody (c :: rest) =
      (templateBody rest).map fun (stop, body, after) => (stop, c :: body, after) := by
  rw [templateBody.eq_def]
  dsimp only
  rw [if_neg hslash, if_neg hquote, if_neg hhole]

/-- Whether a class is open behind a character that is not escaped. -/
def classAfter (inClass : Bool) (c : Char) : Bool :=
  if c = '[' then true else if c = ']' then false else inClass

/-- A character within a regular expression that is neither a backslash nor the slash at its end. -/
structure IsInner (inClass : Bool) (c : Char) : Prop where
  line : ¬ (c = '\n' ∨ c = '\r')
  escape : c ≠ '\\'
  close : ¬ (c = '/' ∧ inClass = false)

theorem regexBody_line (hline : c = '\n' ∨ c = '\r') : regexBody inClass (c :: rest) = none := by
  rw [regexBody.eq_def]
  exact if_pos hline

theorem regexBody_escape : regexBody inClass ('\\' :: d :: rest) =
    (regexBody inClass rest).map fun (body, after) => ('\\' :: d :: body, after) := by
  rw [regexBody, if_neg (by decide), if_pos rfl]

theorem regexBody_close (after : List Char) : regexBody false ('/' :: after) = some (['/'], after) := by
  rw [regexBody.eq_def]
  rfl

theorem regexBody_inner (h : IsInner inClass c) : regexBody inClass (c :: rest) =
    (regexBody (classAfter inClass c) rest).map fun (body, after) => (c :: body, after) := by
  rw [regexBody.eq_def, classAfter]
  dsimp only
  rw [if_neg h.line, if_neg h.escape, if_neg h.close]
  split_ifs <;> rfl

end

/-- The ways in which the reading of a regular expression goes on or ends. -/
theorem regexBody_induction {motive : Bool → List Char → Prop}
    (nil : ∀ inClass, motive inClass [])
    (line : ∀ inClass c rest, c = '\n' ∨ c = '\r' → motive inClass (c :: rest))
    (backslash : ∀ inClass, motive inClass ['\\'])
    (escape : ∀ inClass d rest, motive inClass rest → motive inClass ('\\' :: d :: rest))
    (close : ∀ rest, motive false ('/' :: rest))
    (inner : ∀ inClass c rest, IsInner inClass c → motive (classAfter inClass c) rest →
      motive inClass (c :: rest)) (inClass : Bool) (text : List Char) : motive inClass text := by
  fun_induction regexBody inClass text with
  | case1 inClass => exact nil inClass
  | case2 inClass c rest hline => exact line inClass c rest hline
  | case3 inClass => exact backslash inClass
  | case4 inClass d rest _ ih => exact escape inClass d rest ih
  | case5 inClass rest hline hslash ih => exact inner inClass '[' rest ⟨hline, hslash, by simp⟩ ih
  | case6 inClass rest hline hslash _ ih => exact inner inClass ']' rest ⟨hline, hslash, by simp⟩ ih
  | case7 inClass c rest hline hslash _ _ hclose =>
    obtain ⟨rfl, rfl⟩ := hclose
    exact close rest
  | case8 inClass c rest hline hslash hopens hcloses hclose ih =>
    refine inner inClass c rest ⟨hline, hslash, hclose⟩ ?_
    rwa [classAfter, if_neg hopens, if_neg hcloses]

/-- How a regular expression is read to its end. -/
inductive ReadsRegex : (inClass : Bool) → (text body after : List Char) → Prop
  | close (after : List Char) : ReadsRegex false ('/' :: after) ['/'] after
  | escape {inClass : Bool} {rest body after : List Char} (d : Char) (h : ReadsRegex inClass rest body after) :
      ReadsRegex inClass ('\\' :: d :: rest) ('\\' :: d :: body) after
  | inner {inClass : Bool} {c : Char} {rest body after : List Char} (hc : IsInner inClass c)
      (h : ReadsRegex (classAfter inClass c) rest body after) :
      ReadsRegex inClass (c :: rest) (c :: body) after

theorem ReadsRegex.eq_some {inClass : Bool} {text body after : List Char}
    (h : ReadsRegex inClass text body after) : regexBody inClass text = some (body, after) := by
  induction h with
  | close after => exact regexBody_close after
  | escape d _ ih => rw [regexBody_escape, ih, Option.map_some]
  | inner hc _ ih => rw [regexBody_inner hc, ih, Option.map_some]

theorem regexBody_eq_some_iff {inClass : Bool} {text body after : List Char} :
    regexBody inClass text = some (body, after) ↔ ReadsRegex inClass text body after := by
  refine ⟨fun h => ?_, ReadsRegex.eq_some⟩
  induction inClass, text using regexBody_induction generalizing body after with
  | nil inClass => cases h
  | line inClass c rest hline =>
    rw [regexBody_line hline] at h
    cases h
  | backslash inClass => cases h
  | close rest =>
    rw [regexBody_close] at h
    cases h
    exact .close rest
  | escape inClass d rest ih =>
    rw [regexBody_escape] at h
    obtain ⟨found, hfound, heq⟩ := Option.map_eq_some_iff.1 h
    cases heq
    exact .escape d (ih hfound)
  | inner inClass c rest hc ih =>
    rw [regexBody_inner hc] at h
    obtain ⟨found, hfound, heq⟩ := Option.map_eq_some_iff.1 h
    cases heq
    exact .inner hc (ih hfound)

theorem stringText_cons (part : StringPart) (parts : List StringPart) :
    stringText (part :: parts) = part.text ++ stringText parts := List.flatMap_cons

theorem stringParts_head? {quote : Char} {text after : List Char} {parts : List StringPart}
    (h : stringParts quote text = (parts, some after)) (after' : List Char) :
    (stringText parts ++ quote :: after').head? = text.head? := by
  rw [← stringParts_append h]
  cases stringText parts <;> rfl

theorem templateBody_head? {text body after : List Char} {stop : TemplateStop}
    (h : templateBody text = some (stop, body, after)) (after' : List Char) :
    (body ++ after').head? = text.head? := by
  fun_cases templateBody text with
  | case1 | case2 => simp [templateBody] at h
  | case3 | case4 | case5 | case6 =>
    rw [templateBody.eq_def] at h
    simp_all only [if_true, if_false, Option.map_eq_some_iff, Prod.mk.injEq]
    grind

theorem commentBody_head? {text body after : List Char} (h : commentBody text = some (body, after))
    (after' : List Char) : (body ++ after').head? = text.head? := by
  fun_cases commentBody text with
  | case1 => simp [commentBody] at h
  | case2 | case3 =>
    rw [commentBody] at h
    simp_all only [if_false, Option.map_eq_some_iff, Prod.mk.injEq]
    grind

theorem stringParts_local {quote : Char} {text after : List Char} {parts : List StringPart}
    (h : stringParts quote text = (parts, some after)) (after' : List Char) :
    stringParts quote (stringText parts ++ quote :: after') = (parts, some after') := by
  fun_induction stringParts quote text generalizing parts after with
  | case1 | case2 | case6 => simp at h
  | case3 rest parts' _ heq ih =>
    obtain ⟨rfl, rfl⟩ : .crlf :: parts' = parts ∧ _ = some after := by simpa using h
    simp only [stringText, List.flatMap_cons, StringPart.text, List.cons_append, List.nil_append]
    rw [stringParts.eq_def]
    simp only [if_true]
    rw [← stringText, ih heq]
  | case4 d rest hd parts' _ heq ih =>
    obtain ⟨rfl, rfl⟩ : .escape d :: parts' = parts ∧ _ = some after := by simpa using h
    simp only [stringText, List.flatMap_cons, StringPart.text, List.cons_append, List.nil_append]
    rw [← stringText, stringParts_escape, ih heq]
    rw [stringParts_head? heq]
    rintro ⟨rfl, hhead⟩
    obtain ⟨rest', rfl⟩ := List.head?_eq_some_iff.1 hhead
    exact hd _ rfl rfl
  | case5 rest hslash =>
    obtain ⟨rfl, rfl⟩ : [] = parts ∧ rest = after := by simpa using h
    exact stringParts_close hslash
  | case7 c rest hslash hquote hline parts' _ heq ih =>
    obtain ⟨rfl, rfl⟩ : .plain c :: parts' = parts ∧ _ = some after := by simpa using h
    simp only [stringText, List.flatMap_cons, StringPart.text, List.cons_append, List.nil_append]
    rw [← stringText, stringParts_plain hslash hquote hline, ih heq]

theorem templateBody_local {text body after : List Char} {stop : TemplateStop}
    (h : templateBody text = some (stop, body, after)) (after' : List Char) :
    templateBody (body ++ after') = some (stop, body, after') := by
  fun_induction templateBody text generalizing stop body after with
  | case1 | case2 => simp at h
  | case3 d rest ih =>
    obtain ⟨⟨s, b, a⟩, hb, h⟩ := Option.map_eq_some_iff.1 h
    simp only [Prod.mk.injEq] at h
    obtain ⟨rfl, rfl, rfl⟩ := h
    simp [templateBody, ih hb]
  | case4 rest =>
    simp only [Option.some.injEq, Prod.mk.injEq] at h
    obtain ⟨rfl, rfl, rfl⟩ := h
    rw [List.cons_append, List.nil_append, templateBody.eq_def]
    rfl
  | case5 c rest _ _ hd =>
    simp only [Option.some.injEq, Prod.mk.injEq] at h
    obtain ⟨rfl, rfl, rfl⟩ := h
    rfl
  | case6 c rest hc hq hd ih =>
    obtain ⟨⟨s, b, a⟩, hb, h⟩ := Option.map_eq_some_iff.1 h
    simp only [Prod.mk.injEq] at h
    obtain ⟨rfl, rfl, rfl⟩ := h
    rw [List.cons_append, templateBody_plain hc hq (templateBody_head? hb after' ▸ hd), ih hb]
    rfl

theorem regexBody_local {inClass : Bool} {text body after : List Char}
    (h : regexBody inClass text = some (body, after)) (after' : List Char) :
    regexBody inClass (body ++ after') = some (body, after') := by
  rw [regexBody_eq_some_iff] at h ⊢
  induction h with
  | close => exact .close after'
  | escape d _ ih => exact .escape d ih
  | inner hc _ ih => exact .inner hc ih

theorem commentBody_local {text body after : List Char} (h : commentBody text = some (body, after))
    (after' : List Char) : commentBody (body ++ after') = some (body, after') := by
  fun_induction commentBody text generalizing body after with
  | case1 => simp at h
  | case2 c rest hc =>
    simp only [Option.some.injEq, Prod.mk.injEq] at h
    obtain ⟨rfl, rfl⟩ := h
    rfl
  | case3 c rest hc ih =>
    obtain ⟨⟨b, a⟩, hb, h⟩ := Option.map_eq_some_iff.1 h
    simp only [Prod.mk.injEq] at h
    obtain ⟨rfl, rfl⟩ := h
    rw [List.cons_append, commentBody, if_neg (commentBody_head? hb after' ▸ hc), ih hb]
    rfl

/-! Bodies with nothing in them that ends or escapes. -/

theorem stringParts_of_plain {quote : Char} (hquote : quote ≠ '\\') {body : List Char}
    (hbody : ∀ c ∈ [quote, '\\', '\r', '\n'], c ∉ body) (after : List Char) :
    stringParts quote (body ++ quote :: after) = (body.map .plain, some after) := by
  induction body with
  | nil => exact stringParts_close hquote
  | cons c body ih =>
    have hc : ∀ d ∈ [quote, '\\', '\r', '\n'], c ≠ d := by
      rintro d hd rfl
      exact hbody c hd List.mem_cons_self
    have hline : ¬ (c = '\n' ∨ c = '\r') := by
      rintro (rfl | rfl)
      · exact hc '\n' (by simp) rfl
      · exact hc '\r' (by simp) rfl
    rw [List.cons_append, stringParts_plain (hc '\\' (by simp)) (hc quote (by simp)) hline,
      ih fun d hd hmem => hbody d hd (List.mem_cons_of_mem _ hmem)]
    rfl

/-- Without a backslash, nothing is escaped. -/
theorem octalOffsets_of_plain {parts : List StringPart} (h : '\\' ∉ stringText parts) (start : Nat) :
    octalOffsets start parts = [] := by
  induction parts generalizing start with
  | nil => rfl
  | cons part parts ih =>
    rw [stringText, List.flatMap_cons, List.mem_append, not_or] at h
    obtain ⟨hpart, hparts⟩ := h
    have hoctal : part.isOctal parts = false := by
      cases part with
      | escape c => simp [StringPart.text] at hpart
      | plain | crlf => rfl
    rw [octalOffsets, hoctal]
    exact ih hparts _

theorem regexBody_of_plain {body : List Char}
    (hbody : ∀ c ∈ ['/', '[', ']', '\\', '\r', '\n'], c ∉ body) (after : List Char) :
    regexBody false (body ++ '/' :: after) = some (body ++ ['/'], after) := by
  induction body with
  | nil => exact regexBody_close after
  | cons c body ih =>
    have hc : ∀ d ∈ ['/', '[', ']', '\\', '\r', '\n'], c ≠ d := by
      rintro d hd rfl
      exact hbody c hd List.mem_cons_self
    simp only [List.mem_cons, List.not_mem_nil, or_false, forall_eq_or_imp, forall_eq] at hc
    obtain ⟨hslash, hopen, hclose, hescape, hreturn, hfeed⟩ := hc
    have hinner : IsInner false c := ⟨not_or.2 ⟨hfeed, hreturn⟩, hescape, fun h => hslash h.1⟩
    have hclass : classAfter false c = false := by simp [classAfter, hopen]
    rw [List.cons_append, regexBody_inner hinner, hclass,
      ih fun d hd hmem => hbody d hd (List.mem_cons_of_mem _ hmem)]
    rfl

/-- Where nothing is escaped and there is no class, the first slash closes. -/
theorem regexBody_slash {body more read after : List Char}
    (hbody : ∀ c ∈ ['\\', '[', ']'], c ∉ body)
    (h : regexBody false (body ++ '/' :: more) = some (read, after)) :
    read = body.takeWhile (· != '/') ++ ['/'] := by
  induction body generalizing read after with
  | nil =>
    obtain ⟨rfl, -⟩ := Prod.mk.inj (Option.some.inj ((regexBody_close more).symm.trans h))
    rfl
  | cons c body ih =>
    have hc : ∀ d ∈ ['\\', '[', ']'], c ≠ d := by
      rintro d hd rfl
      exact hbody c hd List.mem_cons_self
    simp only [List.mem_cons, List.not_mem_nil, or_false, forall_eq_or_imp, forall_eq] at hc
    obtain ⟨hescape, hopen, hclose⟩ := hc
    rw [List.cons_append] at h
    generalize htext : body ++ '/' :: more = text at h
    cases regexBody_eq_some_iff.1 h with
    | close => rfl
    | escape => exact absurd rfl hescape
    | inner hinner hread =>
      have hclass : classAfter false c = false := by simp [classAfter, hopen]
      rw [hclass, ← htext] at hread
      have hfirst : (c :: body).takeWhile (· != '/') = c :: body.takeWhile (· != '/') :=
        List.takeWhile_cons_of_pos (bne_iff_ne.2 fun h => hinner.close ⟨h, rfl⟩)
      rw [ih (fun d hd hmem => hbody d hd (List.mem_cons_of_mem _ hmem)) hread.eq_some, hfirst]
      rfl

/-- What ends a stretch of template characters. -/
def TemplateStop.text : TemplateStop → List Char
  | .close => ['\x60']
  | .hole => ['$', '{']

theorem templateBody_of_plain {body : List Char} (hbody : ∀ c ∈ ['\x60', '\\', '$'], c ∉ body)
    (stop : TemplateStop) (after : List Char) :
    templateBody (body ++ (stop.text ++ after)) = some (stop, body ++ stop.text, after) := by
  induction body with
  | nil =>
    cases stop <;>
    · rw [templateBody.eq_def]
      rfl
  | cons c body ih =>
    have hc : ∀ d ∈ ['\x60', '\\', '$'], c ≠ d := by
      rintro d hd rfl
      exact hbody c hd List.mem_cons_self
    rw [List.cons_append, templateBody_plain (hc '\\' (by simp)) (hc '\x60' (by simp))
      fun h => hc '$' (by simp) h.1, ih fun d hd hmem => hbody d hd (List.mem_cons_of_mem _ hmem)]
    rfl

theorem commentBody_of_not_infix {body : List Char} (hend : ¬ "*/".toList <:+: body) (after : List Char) :
    commentBody (body ++ '*' :: '/' :: after) = some (body ++ ['*', '/'], after) := by
  induction body with
  | nil => rfl
  | cons c body ih =>
    have hmore : ¬ "*/".toList <:+: body := fun h => hend (h.trans (List.suffix_cons c body).isInfix)
    have hc : ¬ (c = '*' ∧ (body ++ '*' :: '/' :: after).head? = some '/') := by
      rintro ⟨rfl, hhead⟩
      cases body with
      | nil => exact absurd hhead (by simp)
      | cons d body =>
        obtain rfl : d = '/' := by simpa using hhead
        exact hend ⟨[], body, rfl⟩
    rw [List.cons_append, commentBody, if_neg hc, ih hmore]
    rfl

end ParseGoal.Ecma
