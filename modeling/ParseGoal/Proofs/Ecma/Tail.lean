import ParseGoal.Proofs.Ecma.Splice

/-!
Something behind a text, on its last line. The scan of the text goes on to it, unless a comment at the end of the
text takes all that is left of the line.
-/
namespace ParseGoal.Ecma

/-- The rest of a line that no lexeme before it goes on with, and that none sees when it looks ahead. -/
structure Tail (tail : List Char) : Prop where
  covers (before : List Char) : Covers before (before ++ tail)
  alike : Alike [] tail
  line : '\n' ∉ tail

/-- A visible character starts such a rest if nothing asks for it. -/
theorem Tail.of_visible {c : Char} {more : List Char} (hinert : isInert c = true)
    (hblank : ¬ (c = '\n' ∨ isInlineBlank c = true)) (hslash : c ≠ '/') (hasked : c ∉ asked)
    (hoperand : operandFollows (c :: more) = false) (hline : '\n' ∉ c :: more) : Tail (c :: more) where
  covers before := by
    have hcovers := Covers.append before [] hinert more
    rwa [List.append_nil] at hcovers
  alike := .of_nextSignificant (nextSignificant_visible hblank hslash more) hasked hoperand
  line := hline

namespace Place

/-- At a comment that goes on to the end of its line, and there to the end of the text. -/
def isLastComment (p : Place) : Bool := p.meets fun _ piece => piece.lexeme.fillsLine && piece.rest.isEmpty

/-- From the place on, the text ends in a comment that would go on with the line. -/
def EndsInComment (p : Place) : Prop := ∃ q, Visits p q ∧ q.isLastComment = true

variable {p q : Place} {found : List Finding}

theorem Step.endsInComment (h : Step p found q) :
    p.EndsInComment ↔ p.isLastComment = true ∨ q.EndsInComment := by
  simp only [EndsInComment, Visits.iff_of_step h, or_and_right, exists_or, exists_eq_left]

theorem not_endsInComment_of_nil (hend : p.rest = []) : ¬ p.EndsInComment := by
  rintro ⟨q, hq, hlast⟩
  exact Bool.eq_false_iff.1 (hq.meets_of_nil hend _) hlast

end Place

section

variable {tail : List Char} (htail : Tail tail) {context : Context} {c : Char} {rest : List Char}
  (hwhole : (cut context c rest).lexeme.isWhole = true)

include htail hwhole

theorem Tail.cut_again :
    cut context c (rest ++ tail) = (cut context c rest).onto ((cut context c rest).rest ++ tail) := by
  have hcovers := htail.covers (cut context c rest).rest
  have hrest : (cut context c rest).text.tail ++ (cut context c rest).rest = rest := by
    have hcut := cut_append context c rest
    rw [cut_text] at hcut
    exact (List.cons.inj hcut).2
  rw [← cut_isStable context c rest hwhole _ hcovers, ← List.append_assoc, hrest]

/-- A comment at the end of the text takes all that stands behind it. -/
theorem Tail.cut_comment (hfills : (cut context c rest).lexeme.fillsLine = true)
    (hnil : (cut context c rest).rest = []) :
    cut context c (rest ++ tail) = ⟨(cut context c rest).lexeme, (cut context c rest).text ++ tail, []⟩ := by
  have hall : ∀ d ∈ tail, (d != '\n') = true := fun d hd => by
    rw [bne_iff_ne]
    rintro rfl
    exact htail.line hd
  have hline : lineText tail = tail := List.takeWhile_eq_self_iff.2 hall
  have hafter : afterLine tail = [] := List.dropWhile_eq_nil_iff.2 hall
  rw [htail.cut_again hwhole, Cut.onto, if_pos hfills, hnil, List.nil_append, hline, hafter]

/-- Any other lexeme is as it was. -/
theorem Tail.cut_other (h : ¬ ((cut context c rest).lexeme.fillsLine = true ∧ (cut context c rest).rest = [])) :
    cut context c (rest ++ tail) =
      ⟨(cut context c rest).lexeme, (cut context c rest).text, (cut context c rest).rest ++ tail⟩ := by
  rw [htail.cut_again hwhole, Cut.onto]
  split
  · next hfills =>
    have hline := lineText_cut_rest hfills
    obtain ⟨d, more, hmore⟩ := List.exists_cons_of_ne_nil fun hnil => h ⟨hfills, hnil⟩
    obtain rfl : d = '\n' := by
      by_contra hne
      simp [hmore, lineText, hne] at hline
    simp [hmore, lineText, afterLine]
  · rfl

end

/--
What stands behind a text is not seen before it. The scan comes to it as to the end of the text, or to its own end if
a comment takes it.
-/
theorem Place.Reaches.append {p q : Place} {found : List Finding} (h : Reaches p found q) (hend : q.rest = [])
    {tail : List Char} (htail : Tail tail) :
    Alike p.rest (p.rest ++ tail) ∧
      (¬ p.EndsInComment →
        Reaches ⟨p.state, p.offset, p.rest ++ tail⟩ found ⟨q.state, q.offset, tail⟩) ∧
      (p.EndsInComment → ∃ offset,
        Reaches ⟨p.state, p.offset, p.rest ++ tail⟩ found ⟨q.state, offset, []⟩) := by
  induction h with
  | refl p =>
    rw [hend]
    exact ⟨htail.alike, fun _ => .refl _, fun hcomment => absurd hcomment (not_endsInComment_of_nil hend)⟩
  | @step p p' q found later hstep hreaches ih =>
    obtain ⟨halike, hgoes, hstops⟩ := ih hend
    have hcomment := hstep.endsInComment
    obtain ⟨rfl, htake⟩ := hstep
    rename_i s next offset c rest
    have hwhole := take_isWhole htake
    -- Of all lexemes, only a comment that ends the text goes on with what stands behind it.
    by_cases hlast : (cut s.context c rest).lexeme.fillsLine = true ∧ (cut s.context c rest).rest = []
    · obtain ⟨hfills, hnil⟩ := hlast
      have hcut := htail.cut_comment hwhole hfills hnil
      obtain ⟨rfl, rfl⟩ := hreaches.eq_of_rest (hnil.trans hend.symm)
      have halike' : Alike (c :: rest) (c :: (rest ++ tail)) :=
        .cons s.context (by rw [hcut]) (by rw [hcut, hnil]; exact .refl [])
      have hthis : isLastComment ⟨s, offset, c :: rest⟩ = true := by
        simp [isLastComment, meets, hfills, hnil]
      rw [hnil] at htake
      refine ⟨halike', fun hnot => absurd (hcomment.2 (.inl hthis)) hnot, fun _ => ?_⟩
      exact ⟨_, .step (.intro hcut htake) (.refl _)⟩
    · have hcut := htail.cut_other hwhole hlast
      have halike' : Alike (c :: rest) (c :: (rest ++ tail)) :=
        .cons s.context (by rw [hcut]) (by rw [hcut]; exact halike)
      have hthis : ¬ isLastComment ⟨s, offset, c :: rest⟩ = true := by
        simpa [isLastComment, meets] using hlast
      have hsame : s.take offset (cut s.context c rest).lexeme ((cut s.context c rest).rest ++ tail) =
          s.take offset (cut s.context c rest).lexeme (cut s.context c rest).rest :=
        State.take_congr fun _ _ => halike.after _
      rw [hcomment, or_iff_right hthis]
      refine ⟨halike', fun hnot => .step (.intro hcut (hsame.trans htake)) (hgoes hnot), fun hends => ?_⟩
      obtain ⟨last, hlast⟩ := hstops hends
      exact ⟨last, .step (.intro hcut (hsame.trans htake)) hlast⟩

end ParseGoal.Ecma
