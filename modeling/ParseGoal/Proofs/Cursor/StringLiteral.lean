import ParseGoal.Proofs.Cursor.Run

/-!
The scan over the bytes of a string literal keeps in step with the elements that the literal is
written with. Only an escape that is one of the elements counts as octal: a backslash that another
one escapes starts nothing.
-/
namespace ParseGoal.Ecma

variable {quote : Char} {part : StringPart} {pre post parts : List StringPart}

/-! The elements of a literal are read back. -/

/-- A string literal with some elements. -/
def stringLiteral (quote : Char) (parts : List StringPart) : List Char :=
  quote :: (stringText parts ++ [quote])

theorem stringLiteral_append (quote : Char) (parts : List StringPart) (rest : List Char) :
    stringLiteral quote parts ++ rest = quote :: (stringText parts ++ quote :: rest) := by
  rw [stringLiteral, List.cons_append, List.append_assoc, List.singleton_append]

/-- No element starts with a line feed, so a carriage return that is escaped does not take one along. -/
theorem head?_stringText_ne (hquote : quote ≠ '\n') (hparts : .plain '\n' ∉ parts) (rest : List Char) :
    (stringText parts ++ quote :: rest).head? ≠ some '\n' := by
  cases parts with
  | nil => exact fun h => hquote (Option.some.inj h)
  | cons part parts =>
    cases part with
    | plain c =>
      rintro h
      obtain rfl : c = '\n' := Option.some.inj h
      exact hparts List.mem_cons_self
    | escape c => exact fun h => absurd (Option.some.inj h) (by decide)
    | crlf => exact fun h => absurd (Option.some.inj h) (by decide)

theorem stringParts_stringText (hquote : quote ∉ ['\\', '\n'])
    (hparts : ∀ c ∈ [quote, '\\', '\r', '\n'], .plain c ∉ parts) (rest : List Char) :
    stringParts quote (stringText parts ++ quote :: rest) = (parts, some rest) := by
  simp only [List.mem_cons, List.not_mem_nil, or_false, not_or] at hquote
  induction parts with
  | nil => exact stringParts_close hquote.1
  | cons part parts ih =>
    have hrest := ih fun c hc hmem => hparts c hc (List.mem_cons_of_mem _ hmem)
    have hpart : ∀ c ∈ [quote, '\\', '\r', '\n'], part ≠ .plain c := fun c hc heq =>
      hparts c hc (heq ▸ List.mem_cons_self)
    rw [stringText_cons, List.append_assoc]
    cases part with
    | plain c =>
      simp only [List.mem_cons, List.not_mem_nil, or_false, forall_eq_or_imp, forall_eq, ne_eq,
        StringPart.plain.injEq] at hpart
      obtain ⟨hclose, hslash, hreturn, hfeed⟩ := hpart
      change stringParts quote (c :: (stringText parts ++ quote :: rest)) = _
      rw [stringParts_plain hslash hclose (not_or.2 ⟨hfeed, hreturn⟩), hrest]
    | escape c =>
      have hfeed : StringPart.plain '\n' ∉ parts := fun hmem =>
        hparts '\n' (by simp) (List.mem_cons_of_mem _ hmem)
      have hcrlf : ¬ (c = '\r' ∧ (stringText parts ++ quote :: rest).head? = some '\n') := fun h =>
        head?_stringText_ne hquote.2 hfeed rest h.2
      change stringParts quote ('\\' :: c :: (stringText parts ++ quote :: rest)) = _
      rw [stringParts_escape hcrlf, hrest]
    | crlf =>
      change stringParts quote ('\\' :: '\r' :: '\n' :: (stringText parts ++ quote :: rest)) = _
      rw [stringParts_crlf, hrest]

/-! The octal escapes among the elements. -/

/-- A character after a backslash, before some elements, makes an octal escape. -/
def EscapesOctal (c : Char) (after : List StringPart) : Prop :=
  c ∈ "123456789".toList ∨ c = '0' ∧ ∃ d ∈ "0123456789".toList, after.head? = some (.plain d)

/-- Behind some of the elements, the next one is an octal escape. -/
def OctalBehind (pre parts : List StringPart) : Prop :=
  ∃ c post, parts = pre ++ .escape c :: post ∧ EscapesOctal c post

theorem isDigit_iff_mem {c : Char} : c.isDigit = true ↔ c ∈ "0123456789".toList := by
  have hdigits : ∀ n < 58, 48 ≤ n → Char.ofNat n ∈ "0123456789".toList := by decide
  constructor
  · intro h
    simp only [Char.isDigit, ge_iff_le, Bool.and_eq_true, decide_eq_true_eq, UInt32.le_iff_toNat_le] at h
    rw [← Char.ofNat_toNat c]
    exact hdigits c.toNat (Nat.lt_succ_of_le h.2) h.1
  · have hall : "0123456789".toList.all Char.isDigit = true := by decide
    exact List.all_eq_true.1 hall c

theorem isOctal_escape {c : Char} :
    (StringPart.escape c).isOctal post = true ↔ EscapesOctal c post := by
  have hdigit : (c.isDigit && c != '0') = true ↔ c ∈ "123456789".toList := by
    have hsplit : "0123456789".toList = '0' :: "123456789".toList := rfl
    have hzero : '0' ∉ "123456789".toList := by decide
    rw [Bool.and_eq_true, bne_iff_ne, isDigit_iff_mem, hsplit, List.mem_cons]
    constructor
    · exact fun h => h.1.resolve_left h.2
    · exact fun h => ⟨.inr h, fun heq => hzero (heq ▸ h)⟩
  have hafter : (post.head?.map StringPart.isDigit).getD false = true ↔
      ∃ d ∈ "0123456789".toList, post.head? = some (.plain d) := by
    simp only [← isDigit_iff_mem]
    rcases post with _ | ⟨part, post⟩
    · simp
    · cases part <;> simp [StringPart.isDigit]
  rw [StringPart.isOctal, Bool.or_eq_true, hdigit, Bool.and_eq_true, beq_iff_eq, hafter]
  rfl

theorem octalBehind_nil : OctalBehind [] (part :: parts) ↔ part.isOctal parts = true := by
  constructor
  · rintro ⟨c, post, heq, hoctal⟩
    obtain ⟨rfl, rfl⟩ := List.cons.inj heq
    exact isOctal_escape.2 hoctal
  · intro h
    cases part with
    | escape c => exact ⟨c, parts, rfl, isOctal_escape.1 h⟩
    | plain c => cases h
    | crlf => cases h

theorem octalBehind_cons {first : StringPart} :
    OctalBehind (first :: pre) (part :: parts) ↔ first = part ∧ OctalBehind pre parts := by
  simp only [OctalBehind, List.cons_append, List.cons.injEq, and_assoc, exists_and_left, eq_comm]

theorem octalOffsets_eq_nil_iff {start : Nat} :
    octalOffsets start parts = [] ↔ ∀ pre, ¬ OctalBehind pre parts := by
  induction parts generalizing start with
  | nil =>
    refine ⟨fun _ pre h => ?_, fun _ => rfl⟩
    obtain ⟨c, post, heq, -⟩ := h
    exact absurd heq.symm (by simp)
  | cons part parts ih =>
    rw [octalOffsets]
    by_cases hpart : part.isOctal parts = true
    · rw [if_pos hpart]
      exact iff_of_false (List.cons_ne_nil _ _) fun h => absurd (octalBehind_nil.2 hpart) (h [])
    · rw [if_neg hpart]
      refine ih.trans ⟨fun h pre => ?_, fun h pre hpre => h (part :: pre) (octalBehind_cons.2 ⟨rfl, hpre⟩)⟩
      cases pre with
      | nil => exact mt octalBehind_nil.1 hpart
      | cons first pre => exact fun hpre => h pre (octalBehind_cons.1 hpre).2

/-- The first octal escape is where the elements before it end. -/
theorem head?_octalOffsets (h : OctalBehind pre parts)
    (hfirst : ∀ pre', OctalBehind pre' parts → pre.length ≤ pre'.length) (start : Nat) :
    (octalOffsets start parts).head? = some (start + Text.byteSize (stringText pre)) := by
  induction pre generalizing parts start with
  | nil =>
    obtain ⟨c, post, rfl, hoctal⟩ := h
    rw [List.nil_append, octalOffsets, if_pos (isOctal_escape.2 hoctal)]
    rfl
  | cons first pre ih =>
    rcases parts with _ | ⟨part, parts⟩
    · obtain ⟨c, post, heq, -⟩ := h
      cases heq
    obtain ⟨rfl, hrest⟩ := octalBehind_cons.1 h
    have hnot : ¬ first.isOctal parts = true := fun hoctal =>
      absurd (hfirst [] (octalBehind_nil.2 hoctal)) (Nat.not_succ_le_zero _)
    have hlater := ih hrest (fun pre' hpre' =>
      Nat.le_of_succ_le_succ (hfirst (first :: pre') (octalBehind_cons.2 ⟨rfl, hpre'⟩)))
      (start + Text.byteSize first.text)
    rw [octalOffsets, if_neg hnot, hlater, stringText_cons, Text.byteSize_append, Nat.add_assoc]

namespace Cursor

variable {m : Cursor}

/-- Octal escapes are noted for a module, and only the first of them is kept. -/
theorem errorOf_recordAll_octals (m : Cursor) (pos : Nat) (parts : List StringPart) :
    (m.recordAll (octals pos parts)).errorOf .script = m.errorOf .script ∧
      (m.recordAll (octals pos parts)).errorOf .module =
        (m.errorOf .module).or ((octalOffsets pos parts).head?.map (⟨·, .octalEscape⟩)) := by
  have hgoal (x : Finding) (hx : x ∈ octals pos parts) : x.what.goal = .module := by
    obtain ⟨n, -, rfl⟩ := List.mem_map.1 hx
    rfl
  have hscript : (octals pos parts).filter (·.what.goal = .script) = [] :=
    List.filter_eq_nil_iff.2 fun x hx => by simp [hgoal x hx]
  have hmodule : (octals pos parts).filter (·.what.goal = .module) = octals pos parts :=
    List.filter_eq_self.2 fun x hx => by simp [hgoal x hx]
  rw [errorOf_recordAll, errorOf_recordAll, hscript, hmodule, octals, List.head?_map]
  exact ⟨by simp, by simp⟩

/--
The scan of a string literal ends at its closing quote, whatever stands before and behind it. It notes
nothing for a script, and for a module the place of the first octal escape, if there is one.
-/
theorem step_stringLiteral (hquote : quote = '\'' ∨ quote = '"')
    (hparts : ∀ c ∈ [quote, '\\', '\r', '\n'], .plain c ∉ parts) (before rest : List Char)
    (hpos : m.pos = Text.byteSize before) : ∃ next : Cursor,
      m.step (Utf8.encode (before ++ (stringLiteral quote parts ++ rest))) = some (.ok next) ∧
      next.pos = m.pos + Text.byteSize (stringLiteral quote parts) ∧
      next.state = m.state.afterToken .literal ∧
      next.errorOf .script = m.errorOf .script ∧
      (m.errorOf .module = none → ((next.errorOf .module).isSome ↔ ∃ pre, OctalBehind pre parts)) ∧
      ((∀ pre, ¬ OctalBehind pre parts) → next.errorOf .module = m.errorOf .module) ∧
      ∀ pre, OctalBehind pre parts → (∀ pre', OctalBehind pre' parts → pre.length ≤ pre'.length) →
        next.errorOf .module = (m.errorOf .module).or
          (some ⟨m.pos + 1 + Text.byteSize (stringText pre), .octalEscape⟩) := by
  have hline : quote ∉ ['\\', '\n'] := by rcases hquote with rfl | rfl <;> decide
  have hreads : Reads (Utf8.encode (before ++ (stringLiteral quote parts ++ rest))) m.pos
      (quote :: (stringText parts ++ quote :: rest)) :=
    ⟨before, by rw [stringLiteral_append], hpos⟩
  have hcut : cut m.state.context quote (stringText parts ++ quote :: rest) =
      ⟨.string parts, stringLiteral quote parts, rest⟩ := by
    rw [cut_quote hquote, cutString, stringParts_stringText hline hparts]
    rfl
  have htakes := step_takes hreads
  rw [hcut] at htakes
  obtain ⟨next, hstep, hstate, hend, herror⟩ := htakes.of_ok rfl
  have hnotes := errorOf_recordAll_octals m (m.pos + 1) parts
  have hmodule := (herror .module).trans hnotes.2
  refine ⟨next, hstep, hend, hstate, (herror .script).trans hnotes.1, fun hclean => ?_, fun hnone => ?_,
    fun pre hpre hfirst => ?_⟩
  · rw [hmodule, hclean, Option.none_or, Option.isSome_map,
      Option.isSome_iff_ne_none, Ne, List.head?_eq_none_iff, octalOffsets_eq_nil_iff, not_forall_not]
  · rw [hmodule, octalOffsets_eq_nil_iff.2 hnone]
    exact Option.or_none
  · rw [hmodule, head?_octalOffsets hpre hfirst]
    rfl

/--
An escaped backslash leaves the digit behind it alone, and a continued line ends no literal. The zero
before another digit is octal.
-/
theorem step_stringLiteral_of_escapes : ∃ next : Cursor,
    step (Utf8.ofString "x = 'é\\\\1\\\r\n\\é\\07';") { pos := 4 } = some (.ok next) ∧ next.pos = 20 ∧
      next.errorOf .script = none ∧ next.errorOf .module = some ⟨16, .octalEscape⟩ := by
  have hfirst : ∀ pre, OctalBehind pre [.plain 'é', .escape '\\', .plain '1', .crlf, .escape 'é',
      .escape '0', .plain '7'] → 5 ≤ pre.length := by
    rintro (_ | ⟨_, _ | ⟨_, _ | ⟨_, _ | ⟨_, _ | ⟨_, _⟩⟩⟩⟩⟩) h <;>
      simp [octalBehind_cons, octalBehind_nil, StringPart.isOctal] at h ⊢
  have hplain : ∀ c ∈ ['\'', '\\', '\r', '\n'], StringPart.plain c ∉
      [.plain 'é', .escape '\\', .plain '1', .crlf, .escape 'é', .escape '0', .plain '7'] := by simp
  obtain ⟨next, hstep, hpos, -, hscript, -, -, hmodule⟩ := step_stringLiteral (m := { pos := 4 }) (.inl rfl)
    hplain "x = ".toList ";".toList rfl
  refine ⟨next, hstep, hpos, hscript, ?_⟩
  exact hmodule [.plain 'é', .escape '\\', .plain '1', .crlf, .escape 'é'] ⟨'0', [.plain '7'], rfl,
    .inr ⟨rfl, '7', by decide, rfl⟩⟩ hfirst

end Cursor
end ParseGoal.Ecma
