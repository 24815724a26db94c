import ParseGoal.Proofs.Ecma.Brackets
import ParseGoal.Proofs.Ecma.Verdict

/-!
In a text without literals and comments, the only faults are brackets that do not match: a scan tells
whether they are well nested, and where they fail to be.
-/
namespace ParseGoal.Ecma

/-- Texts with nothing in them that starts a literal, a regular expression or a comment. -/
structure Bare (text : List Char) : Prop where
  slash : '/' ∉ text
  quote : '\'' ∉ text ∧ '"' ∉ text ∧ '\x60' ∉ text
  comment : ¬ "<!--".toList <:+: text ∧ ¬ "-->".toList <:+: text

theorem Bare.of_suffix {text more : List Char} (h : Bare more) (hsuffix : text <:+ more) : Bare text where
  slash hmem := h.slash (hsuffix.subset hmem)
  quote := ⟨fun hmem => h.quote.1 (hsuffix.subset hmem), fun hmem => h.quote.2.1 (hsuffix.subset hmem),
    fun hmem => h.quote.2.2 (hsuffix.subset hmem)⟩
  comment := ⟨fun hpart => h.comment.1 (hpart.trans hsuffix.isInfix),
    fun hpart => h.comment.2 (hpart.trans hsuffix.isInfix)⟩

/-- The first place where the brackets of a text fail to match. -/
inductive FirstDefect : List Char → Located Fault → Prop
  /-- The first closing bracket that matches none closes where nothing is open. -/
  | unexpected {before after : List Char} {d : Delimiter} (hmatch : ClosersMatch (brackets before))
      (hnone : ∀ e, ¬ Innermost (brackets before) e) :
      FirstDefect (before ++ d.closer :: after) ⟨Text.byteSize before, .unexpected d⟩
  /-- The first closing bracket that matches none closes another one than the innermost. -/
  | mismatched {before after : List Char} {d e : Delimiter} (hmatch : ClosersMatch (brackets before))
      (hopen : Innermost (brackets before) e) (hne : e ≠ d) :
      FirstDefect (before ++ d.closer :: after) ⟨Text.byteSize before, .mismatched d e⟩
  /-- All closing brackets match, and an opening one is the innermost that is left. -/
  | unclosed {before after : List Char} {d : Delimiter}
      (hmatch : ClosersMatch (brackets (before ++ d.opener :: after)))
      (hafter : WellNested (brackets after)) :
      FirstDefect (before ++ d.opener :: after) ⟨Text.byteSize before, .unclosed d⟩

theorem FirstDefect.not_wellNested {text : List Char} {x : Located Fault} (h : FirstDefect text x) :
    ¬ WellNested (brackets text) := by
  intro hnested
  have hall : ClosersMatch (brackets text) := closersMatch_iff.2 ⟨[], hnested.follow []⟩
  cases h with
  | @unexpected before after d hmatch hnone =>
    rw [brackets_append, brackets_closer] at hall
    exact hnone d (hall _ _ _ rfl)
  | @mismatched before after d e hmatch hopen hne =>
    rw [brackets_append, brackets_closer] at hall
    obtain ⟨stack, hstack⟩ := closersMatch_iff.1 hmatch
    have hd := (innermost_iff hstack d).1 (hall _ _ _ rfl)
    have he := (innermost_iff hstack e).1 hopen
    exact hne (Option.some.inj (he.symm.trans hd))
  | @unclosed before after d hmatch hafter =>
    have hopen : Innermost (brackets (before ++ d.opener :: after)) d :=
      ⟨brackets before, brackets after, by rw [brackets_append, brackets_opener], hafter⟩
    have hhead := (innermost_iff (hnested.follow []) d).1 hopen
    cases hhead

/-! Lexemes of such texts. -/

/-- Lexemes that leave the brackets as they are. -/
def Lexeme.isNeutral : Lexeme → Bool
  | .lineBreak | .blank | .number _ | .update | .arrow | .word _ | .punctuator _ => true
  | _ => false

theorem State.take_neutral (s : State) (start : Nat) {lexeme : Lexeme} (h : lexeme.isNeutral = true)
    (rest : List Char) : ∃ found next, s.take start lexeme rest = ⟨found, .ok next⟩ ∧
      next.frames = s.frames := by
  cases lexeme with
  | lineBreak | blank | number legacy | update => exact ⟨_, _, rfl, rfl⟩
  | word text => exact ⟨_, _, rfl, s.afterWord_frames text⟩
  | arrow | punctuator c =>
    refine ⟨_, _, rfl, ?_⟩
    split <;> rfl
  | _ => cases h

theorem isInert_char (b : Bracket) : isInert b.char = true := by
  rcases b with ⟨_ | _ | _⟩ | ⟨_ | _ | _⟩ <;> decide

/-- What lexemes go on with is no bracket. -/
theorem ofChar?_of_not_inert {c : Char} (h : isInert c = false) : Bracket.ofChar? c = none :=
  Bracket.ofChar?_eq_none fun b hc => by simp [hc, isInert_char] at h

theorem brackets_of_not_inert {text : List Char} (h : ∀ c ∈ text, isInert c = false) : brackets text = [] :=
  List.filterMap_eq_nil_iff.2 fun c hc => ofChar?_of_not_inert (h c hc)

/-- What a lexeme of a text without literals and comments is. -/
inductive Plainly (piece : Cut) : Prop
  | opener (d : Delimiter) (hlexeme : piece.lexeme = .opener d) (htext : piece.text = [d.opener])
  | closer (d : Delimiter) (hlexeme : piece.lexeme = .closer d) (htext : piece.text = [d.closer])
  | neutral (hlexeme : piece.lexeme.isNeutral = true) (htext : brackets piece.text = [])

theorem Plainly.run {lexeme : Lexeme} {c : Char} {tail rest : List Char} (hlexeme : lexeme.isNeutral = true)
    (hc : Bracket.ofChar? c = none) (htail : ∀ d ∈ tail, isInert d = false) :
    Plainly ⟨lexeme, c :: tail, rest⟩ :=
  .neutral hlexeme ((brackets_cons_of_none hc tail).trans (brackets_of_not_inert htail))

theorem plainly_number {c : Char} (hc : Bracket.ofChar? c = none) (rest : List Char) :
    Plainly (cutNumber c rest) := .run rfl hc not_inert_of_mem_numberTail

theorem plainly_word {c : Char} (hc : Bracket.ofChar? c = none) (rest : List Char) :
    Plainly (cutRun (.word ∘ String.ofList) c isWordPart rest) :=
  .run rfl hc fun _ hd => isInert_of_isWordPart (List.mem_takeWhile_imp hd)

theorem plainly_wide {c : Char} (hc : Bracket.ofChar? c = none) (rest : List Char) :
    Plainly (cutWide c rest) := by
  fun_cases cutWide c rest with
  | case1 | case2 | case4 => exact .run rfl hc (List.forall_mem_nil _)
  | case3 => exact plainly_word hc rest

theorem Bare.cut {c : Char} {rest : List Char} (h : Bare (c :: rest)) {context : Context}
    (hcontext : context.inSubstitution = false) : Plainly (cut context c rest) := by
  have hnone (hopener : ∀ d, Delimiter.ofOpener? c = some d → False)
      (hcloser : ∀ d, Delimiter.ofCloser? c = some d → False) : Bracket.ofChar? c = none := by
    rw [Bracket.ofChar?, Option.eq_none_iff_forall_ne_some.2 hopener,
      Option.eq_none_iff_forall_ne_some.2 hcloser]
    rfl
  fun_cases Ecma.cut context c rest with
  | case1 hc => exact .run rfl (hc ▸ rfl) (List.forall_mem_nil _)
  | case2 _ hblank =>
    refine .run rfl ?_ (List.forall_mem_nil _)
    simp only [isInlineBlank, Bool.or_eq_true, beq_iff_eq] at hblank
    rcases hblank with (((rfl | rfl) | rfl) | rfl) | rfl <;> rfl
  | case3 _ _ hc => exact absurd (hc ▸ List.mem_cons_self) h.slash
  | case4 _ _ _ hhtml =>
    obtain ⟨rfl, hhtml⟩ := hhtml
    obtain ⟨after, rfl⟩ := List.isPrefixOf_iff_prefix.1 hhtml
    exact absurd ⟨[], after, rfl⟩ h.comment.1
  | case5 _ _ _ _ hhtml =>
    obtain ⟨rfl, -, hhtml⟩ := hhtml
    obtain ⟨after, rfl⟩ := List.isPrefixOf_iff_prefix.1 hhtml
    exact absurd ⟨[], after, rfl⟩ h.comment.2
  | case6 _ _ _ _ _ hc =>
    rcases hc with rfl | rfl
    · exact absurd List.mem_cons_self h.quote.1
    · exact absurd List.mem_cons_self h.quote.2.1
  | case7 _ _ _ _ _ _ hc => exact absurd (hc ▸ List.mem_cons_self) h.quote.2.2
  | case8 _ _ _ _ _ _ _ hc => exact absurd hc.2 (by simp [hcontext])
  | case9 => exact .opener _ rfl (congrArg ([·]) (eq_opener ‹_›))
  | case10 => exact .closer _ rfl (congrArg ([·]) (eq_closer ‹_›))
  | case11 | case12 => exact plainly_number (hnone ‹_› ‹_›) rest
  | case13 _ _ _ _ _ _ _ _ _ _ hc =>
    refine .run rfl (hnone ‹_› ‹_›) fun d hd => ?_
    obtain rfl := List.mem_singleton.1 hd
    rcases hc.1 with rfl | rfl <;> decide
  | case14 => exact .run rfl rfl (List.forall_mem_singleton.2 (by decide))
  | case15 => exact plainly_word (hnone ‹_› ‹_›) rest
  | case16 => exact plainly_wide (hnone ‹_› ‹_›) rest
  | case17 => exact .run rfl (hnone ‹_› ‹_›) (List.forall_mem_nil _)

/-- What a fault, or that there is none, says of the brackets of a text. -/
def Nesting (text : List Char) : Option (Located Fault) → Prop
  | none => WellNested (brackets text)
  | some x => FirstDefect text x

/-! What the scan keeps of its brackets. -/

/-- The frames of a text are what it leaves open, innermost first, each at its place. -/
def Opened : List Char → List Frame → Prop
  | done, [] => WellNested (brackets done)
  | done, frame :: outer => ∃ before after, done = before ++ frame.enclosure.delimiter.opener :: after ∧
      frame.start = Text.byteSize before ∧ WellNested (brackets after) ∧ Opened before outer

namespace Opened

variable {done more : List Char} {frames : List Frame}

theorem append (h : Opened done frames) (hmore : WellNested (brackets more)) :
    Opened (done ++ more) frames := by
  cases frames with
  | nil =>
    rw [Opened, brackets_append]
    exact WellNested.append h hmore
  | cons frame outer =>
    obtain ⟨before, after, rfl, hstart, hafter, houter⟩ := h
    refine ⟨before, after ++ more, by simp, hstart, ?_, houter⟩
    rw [brackets_append]
    exact hafter.append hmore

theorem leaves (h : Opened done frames) :
    Leaves (brackets done) (frames.map fun frame => frame.enclosure.delimiter) := by
  induction frames generalizing done with
  | nil => exact h
  | cons frame outer ih =>
    obtain ⟨before, after, rfl, -, hafter, houter⟩ := h
    exact ⟨brackets before, brackets after, by simp, hafter, ih houter⟩

theorem closersMatch (h : Opened done frames) : ClosersMatch (brackets done) :=
  closersMatch_iff.2 ⟨_, h.leaves.follow⟩

/-- After a bracket that closes the innermost frame. -/
theorem close {frame : Frame} (h : Opened done (frame :: frames)) :
    Opened (done ++ [frame.enclosure.delimiter.closer]) frames := by
  obtain ⟨before, after, rfl, -, hafter, houter⟩ := h
  have hpair : WellNested (brackets (frame.enclosure.delimiter.opener :: after ++
      [frame.enclosure.delimiter.closer])) := by
    rw [brackets_append, brackets_opener, brackets_closer]
    exact .wrap _ hafter
  rw [List.append_assoc]
  exact houter.append hpair

end Opened

/-- A state behind some text. Outside templates there are no substitutions. -/
structure Tracks (done : List Char) (s : State) : Prop where
  opened : Opened done s.frames
  outside : ∀ frame ∈ s.frames, frame.enclosure ≠ .substitution

theorem State.frames_takeOpener (s : State) (start : Nat) (d : Delimiter) :
    (s.takeOpener start d).frames = ⟨s.enclosureOf d, start⟩ :: s.frames := by
  rw [takeOpener]
  split <;> rfl

theorem State.enclosureOf_delimiter (s : State) (d : Delimiter) :
    (s.enclosureOf d).delimiter = d ∧ s.enclosureOf d ≠ .substitution := by
  cases d with
  | round =>
    rw [enclosureOf]
    split <;> exact ⟨rfl, Enclosure.noConfusion⟩
  | square => exact ⟨rfl, Enclosure.noConfusion⟩
  | curly =>
    rw [enclosureOf]
    split_ifs <;> exact ⟨rfl, Enclosure.noConfusion⟩

namespace Tracks

variable {done rest : List Char} {s : State}

theorem inSubstitution (h : Tracks done s) : s.context.inSubstitution = false := by
  have houtside := h.outside
  rw [State.context]
  cases hframes : s.frames with
  | nil => rfl
  | cons frame outer =>
    rw [hframes] at houtside
    simpa using houtside frame List.mem_cons_self

/-- At the end of the text, the innermost bracket that is open is left. -/
theorem unclosed? (h : Tracks done s) : Nesting done s.unclosed? := by
  obtain ⟨hopened, houtside⟩ := h
  rw [State.unclosed?]
  cases hframes : s.frames with
  | nil =>
    rw [hframes] at hopened
    exact hopened
  | cons frame outer =>
    rw [hframes] at hopened houtside
    have hmatch := hopened.closersMatch
    obtain ⟨before, after, rfl, hstart, hafter, -⟩ := hopened
    have hframe := houtside frame List.mem_cons_self
    simp only [List.head?_cons, Option.map_some, if_neg hframe, hstart]
    exact .unclosed hmatch hafter

theorem opener (h : Tracks done s) (d : Delimiter) :
    Tracks (done ++ [d.opener]) (s.takeOpener (Text.byteSize done) d) := by
  obtain ⟨hdelimiter, houtside⟩ := s.enclosureOf_delimiter d
  refine ⟨?_, ?_⟩ <;> rw [State.frames_takeOpener]
  · exact ⟨done, [], by rw [hdelimiter], rfl, .nil, h.opened⟩
  · exact List.forall_mem_cons.2 ⟨houtside, h.outside⟩

/-- A closing bracket closes the innermost open one, or is the first that does not. -/
theorem closer (h : Tracks done s) (d : Delimiter) (rest : List Char) :
    match s.takeCloser (Text.byteSize done) d with
    | .ok next => Tracks (done ++ [d.closer]) next
    | .error x => FirstDefect (done ++ d.closer :: rest) x := by
  obtain ⟨hopened, houtside⟩ := h
  rw [State.takeCloser]
  have hinnermost := innermost_iff hopened.leaves.follow
  cases hframes : s.frames with
  | nil =>
    rw [hframes] at hopened hinnermost
    exact .unexpected hopened.closersMatch fun e he => by simpa using (hinnermost e).1 he
  | cons frame outer =>
    rw [hframes] at hopened houtside hinnermost
    by_cases hd : frame.enclosure.delimiter = d
    · subst hd
      dsimp only
      rw [if_pos rfl]
      exact ⟨hopened.close, fun x hx => houtside x (List.mem_cons_of_mem _ hx)⟩
    · dsimp only
      rw [if_neg hd]
      exact .mismatched hopened.closersMatch ((hinnermost _).2 rfl) hd

/-- A lexeme keeps the frames at what is open, or it is the first closing bracket that matches none. -/
theorem take (h : Tracks done s) {piece : Cut} (hplain : Plainly piece) :
    match (s.take (Text.byteSize done) piece.lexeme piece.rest).next with
    | .ok next => Tracks (done ++ piece.text) next
    | .error x => FirstDefect (done ++ (piece.text ++ piece.rest)) x := by
  cases hplain with
  | opener d hlexeme htext =>
    rw [hlexeme, htext]
    exact h.opener d
  | closer d hlexeme htext =>
    rw [hlexeme, htext]
    exact h.closer d piece.rest
  | neutral hlexeme htext =>
    obtain ⟨found, next, htake, hframes⟩ := s.take_neutral (Text.byteSize done) hlexeme piece.rest
    rw [htake]
    exact ⟨hframes ▸ h.opened.append (htext ▸ .nil), hframes ▸ h.outside⟩

end Tracks

theorem nesting_scanFrom {done rest : List Char} {s : State} (h : Tracks done s) (hbare : Bare rest) :
    Nesting (done ++ rest) (scanFrom s (Text.byteSize done) rest).fault := by
  -- Along the scan, `done` grows by the text of each lexeme, and the state tracks it.
  generalize hoffset : Text.byteSize done = offset
  fun_induction scanFrom s offset rest generalizing done with
  | case1 s offset =>
    rw [List.append_nil]
    exact h.unclosed?
  | case2 s offset c rest piece turn fault =>
    rename_i hfault
    subst hoffset
    have htake := h.take (hbare.cut h.inSubstitution)
    rw [hfault, cut_append] at htake
    exact htake
  | case3 s offset c rest piece turn next =>
    rename_i hnext ih
    subst hoffset
    have htake := h.take (hbare.cut h.inSubstitution)
    have hrest : piece.text ++ piece.rest = c :: rest := cut_append ..
    rw [hnext] at htake
    rw [← hrest, ← List.append_assoc]
    exact ih htake (hbare.of_suffix ⟨piece.text, hrest⟩) (Text.byteSize_append ..)

/-! Texts of brackets alone. -/

theorem Plainly.findings_take {piece : Cut} (h : Plainly piece) (hne : brackets piece.text ≠ []) (s : State)
    (start : Nat) : (s.take start piece.lexeme piece.rest).findings = [] := by
  cases h with
  | opener d hlexeme | closer d hlexeme =>
    rw [hlexeme]
    rfl
  | neutral _ htext => exact absurd htext hne

section

variable {rest : List Char} (hrest : ∀ c ∈ rest, ∃ b : Bracket, b.char = c)

include hrest

theorem not_mem_of_brackets {c : Char} (hc : Bracket.ofChar? c = none) : c ∉ rest := by
  intro hmem
  obtain ⟨b, rfl⟩ := hrest c hmem
  rw [b.ofChar?_char] at hc
  cases hc

theorem bare_of_brackets : Bare rest where
  slash := not_mem_of_brackets hrest rfl
  quote := ⟨not_mem_of_brackets hrest rfl, not_mem_of_brackets hrest rfl, not_mem_of_brackets hrest rfl⟩
  comment := ⟨fun h => not_mem_of_brackets (c := '<') hrest rfl (h.subset (by decide)),
    fun h => not_mem_of_brackets (c := '>') hrest rfl (h.subset (by decide))⟩

/-- Brackets run into nothing. -/
theorem findings_of_brackets {s : State} {done : List Char} (h : Tracks done s) :
    (scanFrom s (Text.byteSize done) rest).findings = [] := by
  have hbare := bare_of_brackets hrest
  have hne {c : Char} {more : List Char} (context : Context) (hc : ∃ b : Bracket, b.char = c) :
      brackets (cut context c more).text ≠ [] := by
    obtain ⟨b, rfl⟩ := hc
    rw [cut_text, brackets, List.filterMap_cons_some b.ofChar?_char]
    exact List.cons_ne_nil _ _
  generalize hoffset : Text.byteSize done = offset
  fun_induction scanFrom s offset rest generalizing done with
  | case1 => rfl
  | case2 s offset c rest piece turn fault =>
    exact (hbare.cut h.inSubstitution).findings_take (hne _ (hrest c List.mem_cons_self)) s offset
  | case3 s offset c rest piece turn next =>
    rename_i hnext ih
    subst hoffset
    have hplain := hbare.cut h.inSubstitution
    have hfirst : turn.findings = [] := hplain.findings_take (hne _ (hrest c List.mem_cons_self)) s _
    have htake := h.take hplain
    rw [hnext] at htake
    have hsuffix : piece.rest <:+ c :: rest := ⟨piece.text, cut_append ..⟩
    have hlater := ih (fun d hd => hrest d (hsuffix.subset hd)) htake (hbare.of_suffix hsuffix)
      (Text.byteSize_append ..)
    rw [Scan.findings_after, hfirst, hlater]
    rfl

end

end ParseGoal.Ecma
