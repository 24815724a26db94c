import ParseGoal.Proofs.Ecma.Verdict

/-!
A block comment without line ends, with a blank on both sides, changes nothing between two lexemes
but the offsets behind it.
-/
namespace ParseGoal.Ecma

/-- A comment between blanks. -/
def comment (body : List Char) : List Char := " /*".toList ++ body ++ "*/ ".toList

section

variable {body : List Char}

theorem comment_append (body post : List Char) :
    comment body ++ post = ' ' :: '/' :: '*' :: (body ++ '*' :: '/' :: ' ' :: post) := by
  simp [comment]

theorem newline_not_mem_comment (hline : '\n' ∉ body) : '\n' ∉ comment body := by
  simp [comment, hline]

variable (hline : '\n' ∉ body) (hend : ¬ "*/".toList <:+: body)

include hline hend

theorem cutSlash_comment (context : Context) (post : List Char) :
    cutSlash context ('*' :: (body ++ '*' :: '/' :: post)) =
      ⟨.blockComment false, '/' :: '*' :: (body ++ ['*', '/']), post⟩ := by
  have hcontains : (body ++ ['*', '/']).contains '\n' = false := by simp [hline]
  rw [cutSlash, if_neg (by simp), if_pos (by rfl), List.tail_cons, commentBody_of_not_infix hend]
  simp only [hcontains]

theorem alike_comment (post : List Char) : Alike post (comment body ++ post) := by
  have hcut := cutSlash_comment hline hend ⟨false, false, false⟩ (' ' :: post)
  constructor
  · intro c _
    rw [comment_append, nextSignificant_blank (by decide), nextSignificant_slash ⟨false, false, false⟩,
      hcut]
    dsimp only
    rw [nextSignificant_blank (by decide)]
  · rw [comment_append, operandFollows_blank (by decide), operandFollows_slash ⟨false, false, false⟩,
      hcut]
    dsimp only
    rw [operandFollows_blank (by decide)]
    rfl

/-- A scan passes over the comment and remembers nothing of it. -/
theorem reaches_comment (s : State) (offset : Nat) (post : List Char) :
    Place.Reaches ⟨s, offset, comment body ++ post⟩ []
      ⟨s, offset + Text.byteSize (comment body), post⟩ := by
  have hopen : Place.Step ⟨s, offset, comment body ++ post⟩ []
      ⟨s, offset + 1, '/' :: '*' :: (body ++ '*' :: '/' :: ' ' :: post)⟩ := by
    rw [comment_append]
    exact .intro rfl rfl
  have hcut := (cut_slash s.context _).trans (cutSlash_comment hline hend s.context (' ' :: post))
  have hbody : Place.Step ⟨s, offset + 1, '/' :: '*' :: (body ++ '*' :: '/' :: ' ' :: post)⟩ []
      ⟨s, offset + 1 + Text.byteSize ('/' :: '*' :: (body ++ ['*', '/'])), ' ' :: post⟩ :=
    .intro hcut rfl
  have hclose (offset : Nat) : Place.Step ⟨s, offset, ' ' :: post⟩ [] ⟨s, offset + 1, post⟩ :=
    .intro rfl rfl
  have hsize : offset + Text.byteSize (comment body) =
      offset + 1 + Text.byteSize ('/' :: '*' :: (body ++ ['*', '/'])) + 1 := by
    have htext : comment body = ' ' :: ('/' :: '*' :: (body ++ ['*', '/'])) ++ [' '] := by
      simp [comment]
    rw [htext, Text.byteSize_append, Text.byteSize_cons ' ', Nat.add_assoc offset 1, Nat.add_assoc offset]
    rfl
  rw [hsize]
  exact .step hopen (.step hbody (.single (hclose _)))

theorem junction_comment (post : List Char) :
    Junction post (comment body ++ post) post (Text.byteSize (comment body)) where
  covers before := Covers.append before _ (by decide) _
  alike := alike_comment hline hend post
  alike_landing := .refl post
  lands s offset := reaches_comment hline hend s offset post
  line hpost := by
    have hall : ∀ c ∈ comment body, (c != '\n') = true := by
      intro c hc
      rw [bne_iff_ne]
      rintro rfl
      exact newline_not_mem_comment hline hc
    have hafter : afterLine post = post := by
      have happend : lineText post ++ afterLine post = post := List.takeWhile_append_dropWhile
      rwa [hpost] at happend
    rw [lineText, afterLine, List.takeWhile_append_of_pos hall, List.dropWhile_append_of_pos hall,
      ← lineText, ← afterLine, hpost, hafter, List.append_nil]
    exact ⟨rfl, rfl⟩

end

/-- An offset, with `bytes` more in front of what was at `spot` or later. -/
def pastInsertion (spot bytes offset : Nat) : Nat := if offset < spot then offset else offset + bytes

theorem strictMono_pastInsertion (spot bytes : Nat) : StrictMono (pastInsertion spot bytes) := by
  intro m n h
  simp only [pastInsertion]
  split <;> split <;> omega

theorem pastInsertion_of_lt {spot bytes offset : Nat} (h : offset < spot) :
    pastInsertion spot bytes offset = offset := if_pos h

theorem pastInsertion_add (spot bytes k : Nat) :
    pastInsertion spot bytes (spot + k) = spot + bytes + k := by
  rw [pastInsertion, if_neg (by omega), Nat.add_right_comm]

/-- All is found that was found, further on if it was behind the place where the comment goes. -/
theorem scan_comment {pre post body : List Char} (hline : '\n' ∉ body) (hend : ¬ "*/".toList <:+: body)
    {s : State} {found : List Finding}
    (h : Place.Reaches (Place.start (pre ++ post)) found ⟨s, Text.byteSize pre, post⟩) :
    scan (pre ++ (comment body ++ post)) =
      (scan (pre ++ post)).relocate
        (pastInsertion (Text.byteSize pre) (Text.byteSize (comment body))) := by
  obtain ⟨hfound, hstate⟩ := h.before nofun
  obtain ⟨last, hembeds, hreaches⟩ := h.splice_start (junction_comment hline hend post) nofun rfl
  generalize hf : pastInsertion (Text.byteSize pre) (Text.byteSize (comment body)) = f
  have hstays (n : Nat) (hn : n < Text.byteSize pre) : f n = n := hf ▸ pastInsertion_of_lt hn
  have hmoves (k : Nat) : f (Text.byteSize pre + k) =
      Text.byteSize pre + Text.byteSize (comment body) + k := hf ▸ pastInsertion_add ..
  have hearlier : found.map (Located.relocate f) = found :=
    map_relocate_of_fixed fun x hx => hstays _ (hfound x hx)
  have hspot : f (Text.byteSize pre) = Text.byteSize pre + Text.byteSize (comment body) := hmoves 0
  have hlater := scanFrom_embeds (hembeds.of_fixed (hstate.imp hstays)) (Text.byteSize pre)
    (fun k => by rw [hmoves, hspot]) post
  rw [← Place.scan_start, ← Place.scan_start, hreaches.scan, h.scan, Scan.relocate_after, hearlier,
    Place.scan, Place.scan, ← hlater, hspot]

/--
A block comment between blanks, in front of any lexeme or at the end, changes no verdict: what fails
does so for the same reason, at the same place or behind the comment.
-/
theorem attempt_comment {pre post body : List Char} (hline : '\n' ∉ body)
    (hend : ¬ "*/".toList <:+: body) {s : State} {found : List Finding}
    (h : Place.Reaches (Place.start (pre ++ post)) found ⟨s, Text.byteSize pre, post⟩) (goal : Goal) :
    probe.attempt (Utf8.encode pre ++ Utf8.encode (comment body) ++ Utf8.encode post) goal =
      (probe.attempt (Utf8.encode pre ++ Utf8.encode post) goal : Verdict).mapError fun failure =>
        ⟨failure.position.pushed (.ofOffset (pre ++ post) (Utf8.encode pre).length) (comment body).length
          (Utf8.encode (comment body)).length, failure.reason⟩ := by
  rw [← Utf8.encode_append, ← Utf8.encode_append, ← Utf8.encode_append, probe_encode, probe_encode,
    judge, judge, List.append_assoc, scan_comment hline hend h,
    Scan.violation?_relocate (strictMono_pastInsertion ..)]
  cases hv : (scan (pre ++ post)).violation? goal with
  | none => rfl
  | some v =>
    have hlt : v.offset < Text.byteSize (pre ++ post) := offset_lt_of_scan _ goal v hv
    have hposition := Position.ofOffset_insert (newline_not_mem_comment hline) hlt.le
    simp only [Option.map_some, Located.relocate, Utf8.length_encode]
    rw [pastInsertion, hposition]
    rfl

/-- An arrow that starts a line and a comment still does so behind another comment. -/
theorem attempt_comment_of_arrow :
    probe.attempt (Utf8.ofString "x\n" ++ Utf8.ofString " /*one*/ " ++ Utf8.ofString "--> two") .module =
      .error ⟨⟨2, 10, 11⟩, "HTML-like comments are not allowed in module code"⟩ := by
  let word : State := State.afterToken {} (.word "x")
  have hword : Place.Step ⟨{}, 0, "x\n--> two".toList⟩ [] ⟨word, 1, "\n--> two".toList⟩ := .intro rfl rfl
  have hline : Place.Step ⟨word, 1, "\n--> two".toList⟩ []
      ⟨word.afterNewline, 2, "--> two".toList⟩ := .intro rfl rfl
  have hreaches : Place.Reaches (Place.start ("x\n".toList ++ "--> two".toList)) []
      ⟨word.afterNewline, Text.byteSize "x\n".toList, "--> two".toList⟩ :=
    .step hword (.single hline)
  have hfails : (scan ("x\n".toList ++ "--> two".toList)).violation? .module = some ⟨2, .restriction .htmlComment⟩ := by
    decide +kernel
  have hbody : '\n' ∉ "one".toList ∧ ¬ "*/".toList <:+: "one".toList := by decide
  refine (attempt_comment hbody.1 hbody.2 hreaches .module).trans ?_
  rw [← Utf8.encode_append, probe_encode, judge]
  rw [hfails]
  rfl

end ParseGoal.Ecma
