import ParseGoal.Proofs.Ecma.Bounds
import ParseGoal.Proofs.Ecma.Embedding

/-!
Changing what follows a place in a scan. The scan comes to that place as before, provided that what
follows starts with something inert and looks alike from before it.
-/
namespace ParseGoal.Ecma

/-- What a scan finds, at other offsets. -/
def Scan.relocate (f : Nat → Nat) (s : Scan) : Scan :=
  ⟨s.findings.map (Located.relocate f), s.fault.map (Located.relocate f)⟩

theorem Scan.relocate_after (f : Nat → Nat) (s : Scan) (earlier : List Finding) :
    (s.after earlier).relocate f = (s.relocate f).after (earlier.map (Located.relocate f)) := by
  simp [Scan.after, Scan.relocate]

theorem carry_nil (f : Nat → Nat) (found : List Finding) :
    carry f [] found = found.map (Located.relocate f) :=
  carry_of_holds fun _ _ => rfl

@[simp] theorem carry_id (found : List Finding) : carry id [] found = found :=
  (carry_nil id found).trans (List.map_id _)

theorem carry_append (f : Nat → Nat) (outer : List Frame) (found later : List Finding) :
    carry f outer (found ++ later) = carry f outer found ++ carry f outer later := by
  simp [carry]

theorem State.unclosed?_embeds {f : Nat → Nat} {s t : State} (h : Embeds f [] s t) :
    t.unclosed? = s.unclosed?.map (Located.relocate f) := by
  rw [State.unclosed?, State.unclosed?, h.frames]
  cases s.frames <;> simp [Frame.relocate, Located.relocate]

/-- The same text, scanned from an embedded state without brackets around it, gives the same. -/
theorem scanFrom_embeds {f : Nat → Nat} {s t : State} (h : Embeds f [] s t) (offset : Nat)
    (hf : ∀ k, f (offset + k) = f offset + k) (text : List Char) :
    scanFrom t (f offset) text = (scanFrom s offset text).relocate f := by
  induction hlength : text.length using Nat.strong_induction_on generalizing s t offset text with
  | _ n ih =>
    cases text with
    | nil =>
      rw [scanFrom, scanFrom, State.unclosed?_embeds h]
      rfl
    | cons c rest =>
      have hshorter := cut_rest_length s.context c rest
      rw [scanFrom, scanFrom, h.context]
      generalize cut s.context c rest = piece at hshorter
      obtain ⟨hfound, hnext⟩ := h.take hf (.refl piece.rest) piece.lexeme (.inl rfl)
      rw [carry_nil] at hfound
      generalize t.take (f offset) piece.lexeme piece.rest = turn' at hfound hnext ⊢
      generalize s.take offset piece.lexeme piece.rest = turn at hfound hnext ⊢
      obtain ⟨found, next⟩ := turn
      obtain ⟨found', next'⟩ := turn'
      obtain rfl : found' = found.map (Located.relocate f) := hfound
      cases hnext with
      | error _ fault => rfl
      | ok hnext =>
        have hlater := ih _ (hlength ▸ hshorter) hnext (offset + Text.byteSize piece.text)
          (fun k => by rw [Nat.add_assoc, hf, hf, Nat.add_assoc]) piece.rest rfl
        simp only [← hf, hlater, Scan.relocate_after]

/-- A state stays embedded when the offsets of its brackets stay. -/
theorem Embeds.of_fixed {f : Nat → Nat} {s t : State} (h : Embeds id [] s t)
    (hs : s.All fun n => f n = n) : Embeds f [] s t :=
  { h with
    frames := by
      rw [h.frames]
      congr 1
      refine List.map_congr_left fun frame hframe => ?_
      rw [Frame.relocate, Frame.relocate, hs frame hframe]
      rfl }

/-- Findings at offsets that stay are the same elsewhere. -/
theorem map_relocate_of_fixed {f : Nat → Nat} {found : List Finding} (h : ∀ x ∈ found, f x.offset = x.offset) :
    found.map (Located.relocate f) = found := by
  refine (List.map_congr_left fun x hx => ?_).trans (List.map_id _)
  rw [Located.relocate, h x hx]
  rfl

theorem take_isWhole {s : State} {start : Nat} {lexeme : Lexeme} {rest : List Char}
    {found : List Finding} {next : State} (h : s.take start lexeme rest = ⟨found, .ok next⟩) :
    lexeme.isWhole = true := by
  cases lexeme with
  | template stop => cases stop <;> simp_all [State.take, State.takeTemplate, Lexeme.isWhole]
  | templateTail stop =>
    cases stop with
    | some stop => rfl
    | none =>
      rw [State.take, State.takeTail] at h
      split at h <;> simp [State.takeTemplate] at h
  | _ => simp_all [State.take, Lexeme.isWhole]

/--
The text `other` in the place of `rest`. Whatever lexeme came before, its end or that of its line
stays, and the scan comes to `landing`, which is `gap` bytes into `other`.
-/
structure Landing (rest other landing : List Char) (gap : Nat) : Prop where
  covers (before : List Char) : Covers (before ++ rest) (before ++ other)
  lands (s : State) (offset : Nat) : Place.Reaches ⟨s, offset, other⟩ [] ⟨s, offset + gap, landing⟩
  line : lineText rest = [] → afterLine other = landing ∧ Text.byteSize (lineText other) = gap

/-- A landing that no token before it notices when it looks ahead. -/
structure Junction (rest other landing : List Char) (gap : Nat) : Prop extends
    Landing rest other landing gap where
  alike : Alike rest other
  alike_landing : Alike rest landing

/-- The end of a line behind a text, and a text behind it that is not told from the end by looking ahead. -/
theorem Junction.of_newline {text : List Char} (h : Alike [] ('\n' :: text)) :
    Junction [] ('\n' :: text) ('\n' :: text) 0 where
  covers before := .append before [] (by decide) text
  lands s offset := .refl _
  line _ := ⟨rfl, rfl⟩
  alike := h
  alike_landing := h

/-- A visible character that starts no word, and another text behind it. -/
theorem Junction.of_visible {c : Char} {rest other : List Char}
    (hcovers : ∀ before : List Char, Covers (before ++ c :: rest) (before ++ c :: other))
    (hblank : ¬ (c = '\n' ∨ isInlineBlank c = true)) (hslash : c ≠ '/') (hword : isIdentifierStart c = false) :
    Junction (c :: rest) (c :: other) (c :: other) 0 where
  covers := hcovers
  lands s offset := .refl _
  line hline := by
    have hnewline : c ≠ '\n' := fun h => hblank (.inl h)
    simp [lineText, hnewline] at hline
  alike := .of_visible hblank hslash hword rest other
  alike_landing := .of_visible hblank hslash hword rest other

section

variable {rest other landing : List Char} {gap : Nat}

/-- What is at the end of a line still is, but for `other` itself if it follows at once. -/
theorem Landing.line_append (h : Landing rest other landing gap) {text : List Char}
    (hline : lineText (text ++ rest) = []) :
    (lineText (text ++ other) = [] ∧ afterLine (text ++ other) = text ++ other) ∨
      (text = [] ∧ afterLine other = landing ∧ Text.byteSize (lineText other) = gap) := by
  cases text with
  | nil => exact .inr ⟨rfl, h.line hline⟩
  | cons c text =>
    have hc : c = '\n' := by
      by_contra hne
      simp [lineText, hne] at hline
    subst hc
    exact .inl ⟨by simp [lineText], by simp [afterLine]⟩

/-- A lexeme before the text that changes stays, except for a comment that goes on to the end of its line. -/
theorem Landing.cut_again (h : Landing rest other landing gap) {context : Context} {c : Char}
    {more text : List Char} (hwhole : (cut context c more).lexeme.isWhole = true)
    (htext : (cut context c more).rest = text ++ rest) :
    ∃ piece, cut context c ((cut context c more).text.tail ++ (text ++ other)) = piece ∧
      piece.lexeme = (cut context c more).lexeme ∧
      (piece.text = (cut context c more).text ∧ piece.rest = text ++ other ∨
        text = [] ∧ piece.rest = landing ∧
          Text.byteSize piece.text = Text.byteSize (cut context c more).text + gap) := by
  have hcovers : Covers (cut context c more).rest (text ++ other) := htext ▸ h.covers text
  refine ⟨_, rfl, ?_⟩
  rw [cut_isStable context c more hwhole _ hcovers, Cut.onto]
  split
  · next hfills =>
    refine ⟨rfl, ?_⟩
    obtain ⟨hline, hafter⟩ | ⟨rfl, hafter, hgap⟩ := h.line_append (htext ▸ lineText_cut_rest hfills)
    · exact .inl ⟨by rw [hline, List.append_nil], hafter⟩
    · exact .inr ⟨rfl, hafter, by simp only [List.nil_append, Text.byteSize_append, hgap]⟩
  · exact ⟨rfl, .inl ⟨rfl, rfl⟩⟩

end

namespace Place

theorem Reaches.eq_of_rest {p q : Place} {found : List Finding} (h : Reaches p found q)
    (hrest : p.rest = q.rest) : found = [] ∧ p = q := by
  cases h with
  | refl => exact ⟨rfl, rfl⟩
  | step hstep hreaches =>
    obtain ⟨first, hne, hfirst, -⟩ := hstep.exists_append
    obtain ⟨text, htext, -⟩ := hreaches.exists_append
    have hlength := congrArg List.length hrest
    rw [hfirst, htext, List.length_append, List.length_append] at hlength
    have := List.length_pos_iff.2 hne
    omega

/-- Blanks, line breaks and comments leave the last token as it is. -/
theorem previous_of_trivia {s next : State} {start : Nat} {lexeme : Lexeme} {rest : List Char}
    {found : List Finding} (htake : s.take start lexeme rest = ⟨found, .ok next⟩)
    (htrivia : lexeme.isTrivia = true) : next.previous = s.previous := by
  cases lexeme with
  | blockComment multiline =>
    cases multiline <;> cases htake <;> rfl
  | lineBreak | blank | lineComment =>
    cases htake
    rfl
  | _ => cases htrivia

/--
What comes before a landing looks ahead as it did, if the last token does, and the scan takes the same lexemes up to the
text that follows `other`.
-/
theorem Reaches.alikeAfter {p q : Place} {found : List Finding} (h : Reaches p found q)
    {other landing : List Char} {gap : Nat} (hlanding : Landing q.rest other landing gap)
    (hother : AlikeAfter q.state.previous q.rest other)
    (hlast : AlikeAfter q.state.previous q.rest landing)
    {text : List Char} (htext : p.rest = text ++ q.rest) :
    AlikeAfter p.state.previous p.rest (text ++ other) := by
  induction h generalizing text with
  | refl p =>
    obtain rfl : text = [] := by simpa using htext
    exact hother
  | @step p q' q found later hstep hreaches ih =>
    obtain ⟨hcut, htake⟩ := hstep
    rename_i s next offset c more piece
    subst hcut
    obtain ⟨after, hafter, -⟩ := hreaches.exists_append
    dsimp only at hafter htext ih ⊢
    obtain rfl : text = (cut s.context c more).text ++ after := by
      rw [← cut_append s.context, hafter, ← List.append_assoc] at htext
      exact (List.append_cancel_right htext).symm
    obtain ⟨piece, hcut, hlexeme, hrest⟩ := hlanding.cut_again (take_isWhole htake) hafter
    rw [cut_text, List.cons_append, List.cons_append, List.append_assoc]
    refine .cons s.context (hcut ▸ hlexeme.symm) fun htrivia => ?_
    rw [hcut, ← previous_of_trivia htake htrivia]
    obtain ⟨-, hrest⟩ | ⟨rfl, hrest, -⟩ := hrest
    · rw [hrest]
      exact ih hlanding hother hlast hafter
    · obtain ⟨-, rfl⟩ := hreaches.eq_of_rest hafter
      rw [hrest]
      exact hlast

/-- A scan comes to the place of the splice as before. -/
theorem Reaches.splice_after {f : Nat → Nat} {outer : List Frame} {p q : Place} {found : List Finding}
    (h : Reaches p found q) {t : State} (hembeds : Embeds f outer p.state t)
    (hf : ∀ k, f (p.offset + k) = f p.offset + k) {other landing : List Char} {gap : Nat}
    (hlanding : Landing q.rest other landing gap) (hother : AlikeAfter q.state.previous q.rest other)
    (hlast : AlikeAfter q.state.previous q.rest landing) {text : List Char} (htext : p.rest = text ++ q.rest) :
    ∃ last, Embeds f outer q.state last ∧
      Reaches ⟨t, f p.offset, text ++ other⟩ (carry f outer found) ⟨last, f q.offset + gap, landing⟩ := by
  -- The embedding goes along with every lexeme; only the last one before the splice may end elsewhere.
  induction h generalizing t text with
  | refl p =>
    obtain rfl : text = [] := by simpa using htext
    exact ⟨t, hembeds, hlanding.lands t _⟩
  | @step p q' q found later hstep hreaches ih =>
    obtain ⟨hcut, htake⟩ := hstep
    rename_i s next offset c more piece
    subst hcut
    obtain ⟨after, hafter, hoffset⟩ := hreaches.exists_append
    have halike := hreaches.alikeAfter hlanding hother hlast hafter
    dsimp only at hafter htext ih halike hembeds hf ⊢
    obtain rfl : text = (cut s.context c more).text ++ after := by
      rw [← cut_append s.context, hafter, ← List.append_assoc] at htext
      exact (List.append_cancel_right htext).symm
    obtain ⟨piece, hcut, hlexeme, hrest⟩ := hlanding.cut_again (take_isWhole htake) hafter
    have hf' (k : Nat) : f (offset + Text.byteSize (cut s.context c more).text + k) =
        f (offset + Text.byteSize (cut s.context c more).text) + k := by
      rw [Nat.add_assoc, hf, hf, Nat.add_assoc]
    -- The lexeme is the same in both cases below; what follows it differs.
    have hstep {rest : List Char} (halike : AlikeAfter next.previous (cut s.context c more).rest rest)
        (hrest : piece.rest = rest) : ∃ last, Embeds f outer next last ∧
          Step ⟨t, f offset, c :: ((cut s.context c more).text.tail ++ (after ++ other))⟩
            (carry f outer found) ⟨last, f offset + Text.byteSize piece.text, rest⟩ := by
      subst hrest
      have htake' := hembeds.take_after hf (cut s.context c more).lexeme
        (fun next' hnext => by rw [htake] at hnext; exact Except.ok.inj hnext ▸ halike)
        (.inr ⟨next, by rw [htake]⟩)
      rw [htake, ← hlexeme] at htake'
      obtain ⟨hfound, hnext⟩ := htake'
      generalize hturn : t.take (f offset) piece.lexeme piece.rest = turn at hfound hnext
      obtain ⟨found', next'⟩ := turn
      cases hnext with
      | ok hlast => exact ⟨_, hlast, .intro (hembeds.context ▸ hcut) (hfound ▸ hturn)⟩
    rw [cut_text, List.cons_append, List.cons_append, List.append_assoc, carry_append]
    obtain ⟨htext, hrest⟩ | ⟨rfl, hrest, hsize⟩ := hrest
    · obtain ⟨last, hlast', hstep⟩ := hstep halike hrest
      obtain ⟨final, hfinal, hreaches'⟩ := ih hlast' hf' hlanding hother hlast hafter
      rw [hf, ← htext] at hreaches'
      exact ⟨final, hfinal, .step hstep hreaches'⟩
    · obtain ⟨rfl, rfl⟩ := hreaches.eq_of_rest hafter
      obtain ⟨last, hlast', hstep⟩ := hstep hlast hrest
      rw [hsize, ← Nat.add_assoc, ← hf] at hstep
      exact ⟨last, hlast', .step hstep (.refl _)⟩

/-- The same at a junction, whatever the last token is. -/
theorem Reaches.splice {f : Nat → Nat} {outer : List Frame} {p q : Place} {found : List Finding}
    (h : Reaches p found q) {t : State} (hembeds : Embeds f outer p.state t)
    (hf : ∀ k, f (p.offset + k) = f p.offset + k) {other landing : List Char} {gap : Nat}
    (hjunction : Junction q.rest other landing gap) {text : List Char} (htext : p.rest = text ++ q.rest) :
    ∃ last, Embeds f outer q.state last ∧
      Reaches ⟨t, f p.offset, text ++ other⟩ (carry f outer found) ⟨last, f q.offset + gap, landing⟩ :=
  h.splice_after hembeds hf hjunction.toLanding (hjunction.alike.after _) (hjunction.alike_landing.after _) htext

theorem start_of_plain {text : List Char} (h : ¬ ['#', '!'] <+: text) : start text = ⟨{}, 0, text⟩ := by
  have hstarts : ¬ ['#', '!'].isPrefixOf text = true := by rwa [List.isPrefixOf_iff_prefix]
  rw [start, interpreterLine, afterInterpreterLine, if_neg hstarts, if_neg hstarts]
  rfl

theorem start_of_hash {text : List Char} (h : ['#', '!'] <+: text) :
    start text = ⟨{}, Text.byteSize (lineText text), afterLine text⟩ := by
  have hstarts : ['#', '!'].isPrefixOf text = true := List.isPrefixOf_iff_prefix.2 h
  rw [start, interpreterLine, afterInterpreterLine, if_pos hstarts, if_pos hstarts]

/-- The same for a whole text, with the line that names an interpreter. -/
theorem Reaches.splice_start_after {text : List Char} {p : Place} {found : List Finding}
    (h : Reaches (start text) found p) {other landing : List Char} {gap : Nat}
    (hlanding : Landing p.rest other landing gap) (hother : AlikeAfter p.state.previous p.rest other)
    (hlast : AlikeAfter p.state.previous p.rest landing) (hhash : other.head? ≠ some '#')
    {pre : List Char} (htext : text = pre ++ p.rest) :
    ∃ last, Embeds id [] p.state last ∧
      Reaches (start (pre ++ other)) found ⟨last, p.offset + gap, landing⟩ := by
  have hfound : carry id [] found = found := carry_id found
  by_cases hplain : ['#', '!'] <+: text
  · rw [start_of_hash hplain] at h
    obtain ⟨after, hafter, -⟩ := h.exists_append
    dsimp only at hafter
    obtain rfl : pre = lineText text ++ after := by
      have hlines : lineText text ++ afterLine text = text := List.takeWhile_append_dropWhile
      rw [← hlines, hafter, ← List.append_assoc] at htext
      exact (List.append_cancel_right htext).symm
    have hagain := isPrefixOf_lineText (by decide) (List.isPrefixOf_iff_prefix.2 hplain) (after ++ other)
    rw [List.append_assoc, start_of_hash (List.isPrefixOf_iff_prefix.1 hagain), lineText_append,
      afterLine_append]
    obtain ⟨hline, hafter'⟩ | ⟨rfl, hafter', hgap⟩ :=
      hlanding.line_append (hafter ▸ lineText_afterLine text)
    · rw [hline, hafter', List.append_nil, ← hfound]
      exact h.splice_after (.refl _) (fun _ => rfl) hlanding hother hlast hafter
    · obtain ⟨rfl, rfl⟩ := h.eq_of_rest hafter
      rw [List.nil_append, hafter', Text.byteSize_append, hgap]
      exact ⟨_, .refl _, .refl _⟩
  · have hplain' : ¬ ['#', '!'] <+: pre ++ other := by
      intro hstarts
      match pre with
      | [] =>
        obtain ⟨after, rfl⟩ := hstarts
        exact hhash rfl
      | [d] =>
        obtain ⟨rfl, after, hafter⟩ := List.cons_prefix_cons.1 hstarts
        have hhead : other.head? = some '!' := (congrArg List.head? hafter).symm
        obtain ⟨rest, hrest⟩ := List.head?_eq_some_iff.1 ((hlanding.covers []).head? (by decide) hhead)
        exact hplain ⟨rest, by rw [htext, ← List.nil_append p.rest, hrest]; rfl⟩
      | d :: e :: pre =>
        obtain ⟨hd, hstarts⟩ := List.cons_prefix_cons.1 hstarts
        obtain ⟨he, -⟩ := List.cons_prefix_cons.1 hstarts
        exact hplain ⟨pre ++ p.rest, by rw [htext, hd, he]; rfl⟩
    rw [start_of_plain hplain] at h
    rw [start_of_plain hplain', ← hfound]
    exact h.splice_after (.refl _) (fun _ => rfl) hlanding hother hlast htext

theorem Reaches.splice_start {text : List Char} {p : Place} {found : List Finding}
    (h : Reaches (start text) found p) {other landing : List Char} {gap : Nat}
    (hjunction : Junction p.rest other landing gap) (hhash : other.head? ≠ some '#')
    {pre : List Char} (htext : text = pre ++ p.rest) :
    ∃ last, Embeds id [] p.state last ∧
      Reaches (start (pre ++ other)) found ⟨last, p.offset + gap, landing⟩ :=
  h.splice_start_after hjunction.toLanding (hjunction.alike.after _) (hjunction.alike_landing.after _) hhash htext

end Place
end ParseGoal.Ecma
