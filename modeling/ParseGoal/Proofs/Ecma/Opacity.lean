import ParseGoal.Proofs.Ecma.Verdict

/-!
The bodies of literals and comments say nothing to the scan: another body of the same kind changes no
verdict but for the offsets behind it.
-/
namespace ParseGoal.Ecma

/-- Kinds of literals and comments, with what stands around the body. -/
inductive LiteralKind where
  | string (quote : Char)
  | regex (flags : List Char)
  | blockComment
  | lineComment
  /-- Template characters after a backtick. -/
  | template (stop : TemplateStop)
  /-- Template characters after the brace that closes a substitution. -/
  | templateTail (stop : TemplateStop)

namespace LiteralKind

def opening : LiteralKind → List Char
  | string quote => [quote]
  | regex _ => ['/']
  | blockComment => ['/', '*']
  | lineComment => ['/', '/']
  | template _ => ['\x60']
  | templateTail _ => ['\x7d']

def closing : LiteralKind → List Char
  | string quote => [quote]
  | regex flags => '/' :: flags
  | blockComment => ['*', '/']
  | lineComment => []
  | template stop | templateTail stop => stop.text

/-- The text of a literal with this body. -/
def around (kind : LiteralKind) (body : List Char) : List Char := kind.opening ++ (body ++ kind.closing)

theorem around_append (kind : LiteralKind) (body post : List Char) :
    kind.around body ++ post = kind.opening ++ (body ++ (kind.closing ++ post)) := by
  simp [around]

/-- The lexemes of a kind. -/
def Matches : LiteralKind → Lexeme → Prop
  | string quote, .string _ => quote = '\'' ∨ quote = '"'
  | regex _, .regex => True
  | blockComment, .blockComment _ => True
  | lineComment, .lineComment => True
  | template stop, .template stop' => stop' = some stop
  | templateTail stop, .templateTail stop' => stop' = some stop
  | _, _ => False

/-- Characters by which a body has a structure of its own. -/
def special : LiteralKind → List Char
  | string _ => ['\\']
  | regex _ => ['\\', '[', ']']
  | blockComment | lineComment => []
  | template _ | templateTail _ => ['\\', '$']

/-- Bodies without a structure of their own. They end where the literal does. -/
def Plain (body : List Char) : LiteralKind → Prop
  | string quote => ∀ c ∈ [quote, '\\', '\r', '\n'], c ∉ body
  | regex _ => body ≠ [] ∧ body.head? ≠ some '*' ∧ ∀ c ∈ ['/', '[', ']', '\\', '\r', '\n'], c ∉ body
  | blockComment => ¬ "*/".toList <:+: body
  | lineComment => '\n' ∉ body
  | template _ | templateTail _ => ∀ c ∈ ['\x60', '\\', '$'], c ∉ body

/-- Whether a literal of this kind may stand in a context and in front of a text. -/
def Fits (context : Context) (post : List Char) : LiteralKind → Prop
  | string quote => quote = '\'' ∨ quote = '"'
  | regex flags => context.regexAllowed = true ∧
      (flags ++ post).takeWhile isIdentifierPart = flags ∧ (flags ++ post).dropWhile isIdentifierPart = post
  | blockComment => True
  | lineComment => lineText post = []
  | template _ => True
  | templateTail _ => context.inSubstitution = true

/-- The lexeme that a literal with a plain body is. -/
def lexeme (body : List Char) : LiteralKind → Lexeme
  | string _ => .string (body.map .plain)
  | regex _ => .regex
  | blockComment => .blockComment (body.contains '\n')
  | lineComment => .lineComment
  | template stop => .template (some stop)
  | templateTail stop => .templateTail (some stop)

end LiteralKind

/-- The first lexeme of a text. -/
def cutAt (context : Context) : List Char → Option Cut
  | [] => none
  | c :: rest => some (cut context c rest)

theorem stringText_map_plain (body : List Char) : stringText (body.map .plain) = body := by
  induction body with
  | nil => rfl
  | cons c body ih =>
    rw [List.map_cons, stringText, List.flatMap_cons, ← stringText, ih]
    rfl

theorem cut_backtick (context : Context) (rest : List Char) :
    cut context '\x60' rest = cutTemplate .template '\x60' rest := by
  simp [cut, isInlineBlank]

theorem cut_brace {context : Context} (h : context.inSubstitution = true) (rest : List Char) :
    cut context '\x7d' rest = cutTemplate .templateTail '\x7d' rest := by
  simp [cut, isInlineBlank, h]

theorem cut_closer_curly {context : Context} (h : context.inSubstitution = false) (rest : List Char) :
    cut context '\x7d' rest = ⟨.closer .curly, ['\x7d'], rest⟩ := by
  simp [cut, isInlineBlank, h, Delimiter.ofOpener?, Delimiter.ofCloser?]

theorem cut_closer {context : Context} {d : Delimiter} (h : d = .curly → context.inSubstitution = false)
    (rest : List Char) : cut context d.closer rest = ⟨.closer d, [d.closer], rest⟩ := by
  cases d with
  | round | square => rfl
  | curly => exact cut_closer_curly (h rfl) rest

namespace LiteralKind

variable {context : Context} {body post : List Char}

theorem cutSlash_regex {flags : List Char} (hfits : (regex flags).Fits context post)
    (hplain : (regex flags).Plain body) :
    cutSlash context (body ++ '/' :: (flags ++ post)) = ⟨.regex, (regex flags).around body, post⟩ := by
  obtain ⟨hallowed, htake, hdrop⟩ := hfits
  obtain ⟨hne, hstar, hbody⟩ := hplain
  have hread := regexBody_of_plain hbody (flags ++ post)
  obtain ⟨d, body, rfl⟩ := List.exists_cons_of_ne_nil hne
  have hslash : d ≠ '/' := by
    rintro rfl
    exact hbody '/' (by simp) List.mem_cons_self
  rw [cutSlash, if_neg (by simpa using hslash), if_neg (by simpa using hstar), if_pos hallowed, hread]
  simp only [htake, hdrop]
  simp [around, opening, closing]

theorem cutSlash_blockComment (hplain : blockComment.Plain body) :
    cutSlash context ('*' :: (body ++ '*' :: '/' :: post)) =
      ⟨.blockComment (body.contains '\n'), blockComment.around body, post⟩ := by
  have hlines : (body ++ ['*', '/']).contains '\n' = body.contains '\n' := by simp
  rw [cutSlash, if_neg (by simp), if_pos (by rfl), List.tail_cons, commentBody_of_not_infix hplain]
  simp only [hlines]
  rfl

theorem cutSlash_lineComment (hfits : lineComment.Fits context post) (hplain : lineComment.Plain body) :
    cutSlash context ('/' :: (body ++ post)) = ⟨.lineComment, lineComment.around body, post⟩ := by
  have hline : ∀ c ∈ '/' :: body, (c != '\n') = true := by
    intro c hc
    rw [bne_iff_ne]
    rintro rfl
    exact hplain (by simpa using hc)
  have hpost : afterLine post = post := by
    have happend : lineText post ++ afterLine post = post := List.takeWhile_append_dropWhile
    rwa [hfits] at happend
  have hread : lineText ('/' :: (body ++ post)) = '/' :: body := by
    rw [← List.cons_append, lineText, List.takeWhile_append_of_pos hline, ← lineText, hfits,
      List.append_nil]
  have hafter : afterLine ('/' :: (body ++ post)) = post := by
    rw [← List.cons_append, afterLine, List.dropWhile_append_of_pos hline, ← afterLine, hpost]
  rw [cutSlash, if_pos (by rfl), hread, hafter]
  simp [around, opening, closing]

/-- The scan takes a literal with a plain body whole, and as nothing else. -/
theorem cutAt_around {kind : LiteralKind} (hfits : kind.Fits context post) (hplain : kind.Plain body) :
    cutAt context (kind.around body ++ post) = some ⟨kind.lexeme body, kind.around body, post⟩ := by
  rw [around_append]
  cases kind with
  | string quote =>
    have hquote : quote ≠ '\\' := by rcases hfits with rfl | rfl <;> decide
    have hread := stringParts_of_plain hquote hplain post
    rw [opening, closing, List.singleton_append, List.singleton_append, cutAt, cut_quote hfits, cutString, hread]
    simp only [stringText_map_plain]
    rfl
  | regex flags => exact congrArg some ((cut_slash ..).trans (cutSlash_regex hfits hplain))
  | blockComment => exact congrArg some ((cut_slash ..).trans (cutSlash_blockComment hplain))
  | lineComment => exact congrArg some ((cut_slash ..).trans (cutSlash_lineComment hfits hplain))
  | template stop =>
    rw [opening, List.singleton_append, cutAt, cut_backtick, cutTemplate, closing, templateBody_of_plain hplain]
    rfl
  | templateTail stop =>
    rw [opening, List.singleton_append, cutAt, cut_brace hfits, cutTemplate, closing,
      templateBody_of_plain hplain]
    rfl

end LiteralKind

/-! What a literal that the scan has taken says of its place, and what another body changes there. -/

section

variable {kind : LiteralKind} {context : Context} {lexeme : Lexeme} {body other post : List Char}

/-- Where a regular expression without classes and escapes ends, its flags end. -/
theorem regex_fits {flags : List Char} (hspecial : ∀ c ∈ ['\\', '[', ']'], c ∉ body)
    (hcut : cutSlash context (body ++ '/' :: (flags ++ post)) =
      ⟨.regex, '/' :: (body ++ '/' :: flags), post⟩) :
    context.regexAllowed = true ∧ (flags ++ post).takeWhile isIdentifierPart = flags ∧
      (flags ++ post).dropWhile isIdentifierPart = post := by
  revert hcut
  generalize htext : body ++ '/' :: (flags ++ post) = text
  fun_cases cutSlash context text with
  | case4 _ _ hallowed read after hread =>
    intro hcut
    obtain ⟨-, hwhole, hpost⟩ := Cut.mk.inj hcut
    have hwhole : read ++ after.takeWhile isIdentifierPart = body ++ '/' :: flags := by simpa using hwhole
    subst htext
    have hslash := regexBody_slash hspecial hread
    have hsplit : body.takeWhile (· != '/') ++ '/' :: after.takeWhile isIdentifierPart =
        body.takeWhile (· != '/') ++ (body.dropWhile (· != '/') ++ '/' :: flags) :=
      calc body.takeWhile (· != '/') ++ '/' :: after.takeWhile isIdentifierPart
          _ = read ++ after.takeWhile isIdentifierPart := by simp [hslash]
          _ = body ++ '/' :: flags := hwhole
          _ = _ := by rw [← List.append_assoc, List.takeWhile_append_dropWhile]
    have hflags := List.append_cancel_left hsplit
    -- A slash in the body would have closed it, and flags have no slash.
    have hbody : body.dropWhile (· != '/') = [] := by
      cases hdrop : body.dropWhile (· != '/') with
      | nil => rfl
      | cons d later =>
        rw [hdrop] at hflags
        have hmem : '/' ∈ after.takeWhile isIdentifierPart := by
          rw [(List.cons.inj hflags).2]
          simp
        exact absurd (List.mem_takeWhile_imp hmem) (by decide)
    rw [hbody] at hflags
    have hflags : after.takeWhile isIdentifierPart = flags := (List.cons.inj hflags).2
    have hafter : flags ++ post = after := by
      have htake : flags ++ after.dropWhile isIdentifierPart = after := by
        rw [← hflags]
        exact List.takeWhile_append_dropWhile
      rwa [hpost] at htake
    rw [hafter]
    exact ⟨hallowed, hflags, hpost⟩
  | _ => simp

namespace LiteralKind

/-- A literal fits where the scan has taken one. -/
theorem fits_of_cut
    (hcut : cutAt context (kind.around body ++ post) = some ⟨lexeme, kind.around body, post⟩)
    (hkind : kind.Matches lexeme) (hspecial : ∀ c ∈ kind.special, c ∉ body) :
    kind.Fits context post := by
  cases kind with
  | string quote =>
    cases lexeme with
    | string => exact hkind
    | _ => exact hkind.elim
  | regex flags =>
    cases lexeme with
    | regex =>
      rw [around_append] at hcut
      exact regex_fits hspecial ((cut_slash ..).symm.trans (Option.some.inj hcut))
    | _ => exact hkind.elim
  | blockComment | template => trivial
  | lineComment =>
    rw [around_append] at hcut
    have hslash : cutSlash context ('/' :: (body ++ post)) = ⟨lexeme, lineComment.around body, post⟩ :=
      (cut_slash ..).symm.trans (Option.some.inj hcut)
    rw [cutSlash, if_pos (by rfl)] at hslash
    obtain ⟨-, -, hpost⟩ := Cut.mk.inj hslash
    rw [Fits, ← hpost]
    exact lineText_afterLine _
  | templateTail stop =>
    cases hinside : context.inSubstitution with
    | true => exact hinside
    | false =>
      rw [around_append, opening, List.singleton_append, cutAt, cut_closer_curly hinside] at hcut
      obtain ⟨rfl, -⟩ := Cut.mk.inj (Option.some.inj hcut)
      exact hkind.elim

/-- The elements of a string that the scan has taken make up its body. -/
theorem stringText_of_cut {quote : Char} {parts : List StringPart} (hquote : quote = '\'' ∨ quote = '"')
    (hcut : cutAt context ((string quote).around body ++ post) =
      some ⟨.string parts, (string quote).around body, post⟩) : stringText parts = body := by
  rw [around_append, opening, List.singleton_append, cutAt, cut_quote hquote, cutString] at hcut
  split at hcut
  · obtain ⟨hlexeme, hwhole, -⟩ := Cut.mk.inj (Option.some.inj hcut)
    obtain rfl := Lexeme.string.inj hlexeme
    exact List.append_cancel_right (List.cons.inj hwhole).2
  · simp at hcut

/-- A comment that the scan has taken has as many lines as its body. -/
theorem lines_of_cut {multiline : Bool}
    (hcut : cutAt context (blockComment.around body ++ post) =
      some ⟨.blockComment multiline, blockComment.around body, post⟩) :
    multiline = body.contains '\n' := by
  rw [around_append] at hcut
  have hslash : cutSlash context ('*' :: (body ++ '*' :: '/' :: post)) =
      ⟨.blockComment multiline, blockComment.around body, post⟩ :=
    (cut_slash ..).symm.trans (Option.some.inj hcut)
  rw [cutSlash, if_neg (by simp), if_pos (by rfl), List.tail_cons] at hslash
  split at hslash
  · next read after _ =>
    obtain ⟨hlexeme, hwhole, -⟩ := Cut.mk.inj hslash
    obtain rfl := Lexeme.blockComment.inj hlexeme
    have hread : read = body ++ ['*', '/'] := by simpa [around, opening, closing] using hwhole
    simp [hread]
  · simp at hslash

/-- Among the kinds that start with a slash, one body gives the same lexeme as another. -/
theorem lexeme_of_cut
    (hcut : cutAt context (kind.around body ++ post) = some ⟨lexeme, kind.around body, post⟩)
    (hkind : kind.Matches lexeme) (hslash : kind.opening.head? = some '/')
    (hlines : kind = .blockComment → ('\n' ∈ other ↔ '\n' ∈ body)) : lexeme = kind.lexeme other := by
  cases kind with
  | string quote =>
    cases lexeme with
    | string =>
      obtain rfl : quote = '/' := by simpa [opening] using hslash
      exact absurd hkind (by simp [Matches])
    | _ => exact hkind.elim
  | template | templateTail => simp [opening] at hslash
  | regex =>
    cases lexeme with
    | regex => rfl
    | _ => exact hkind.elim
  | lineComment =>
    cases lexeme with
    | lineComment => rfl
    | _ => exact hkind.elim
  | blockComment =>
    cases lexeme with
    | blockComment multiline =>
      have hsame : body.contains '\n' = other.contains '\n' := by
        rw [Bool.eq_iff_iff]
        simpa using (hlines rfl).symm
      rw [lines_of_cut hcut, hsame]
      rfl
    | _ => exact hkind.elim

/-- The scan runs into nothing at such a literal, and goes on as it does after another body. -/
theorem take_of_cut {s : State} (start : Nat)
    (hcut : cutAt s.context (kind.around body ++ post) = some ⟨lexeme, kind.around body, post⟩)
    (hkind : kind.Matches lexeme) (hspecial : ∀ c ∈ kind.special, c ∉ body) (hplain : kind.Plain other)
    (hlines : kind = .blockComment → ('\n' ∈ other ↔ '\n' ∈ body)) :
    ∃ next, s.take start lexeme post = ⟨[], .ok next⟩ ∧
      s.take start (kind.lexeme other) post = ⟨[], .ok next⟩ := by
  have hfits := fits_of_cut hcut hkind hspecial
  cases kind with
  | string quote =>
    cases lexeme with
    | string parts =>
      have hparts : '\\' ∉ stringText parts := by
        rw [stringText_of_cut hkind hcut]
        exact hspecial _ List.mem_cons_self
      have hother : '\\' ∉ stringText (other.map .plain) := by
        rw [stringText_map_plain]
        exact hplain _ (by simp)
      exact ⟨_, by rw [State.take, octalOffsets_of_plain hparts]; rfl,
        by rw [LiteralKind.lexeme, State.take, octalOffsets_of_plain hother]; rfl⟩
    | _ => exact hkind.elim
  | regex | blockComment | lineComment =>
    rw [lexeme_of_cut hcut hkind rfl hlines]
    exact ⟨_, rfl, rfl⟩
  | template stop =>
    cases lexeme with
    | template stop' =>
      obtain rfl : stop' = some stop := hkind
      exact ⟨_, rfl, rfl⟩
    | _ => exact hkind.elim
  | templateTail stop =>
    cases lexeme with
    | templateTail stop' =>
      obtain rfl : stop' = some stop := hkind
      obtain ⟨frame, outer, hframes⟩ : ∃ frame outer, s.frames = frame :: outer := by
        refine List.exists_cons_of_ne_nil fun hnil => ?_
        have hinside : s.context.inSubstitution = true := hfits
        simp [State.context, hnil] at hinside
      simp only [LiteralKind.lexeme, State.take, State.takeTail, hframes]
      exact ⟨_, rfl, rfl⟩
    | _ => exact hkind.elim

/-- What strings and stretches of template characters start with. -/
def quotes : List Char := ['\'', '"', '\x60', '\x7d']

/-- A quote ends all words and all looking ahead. -/
theorem quotes_inert : ∀ c ∈ quotes, isInert c = true ∧ ¬ (c = '\n' ∨ isInlineBlank c = true) ∧
    c ≠ '/' ∧ isIdentifierStart c = false := by
  intro c hc
  simp only [quotes, List.mem_cons, List.not_mem_nil, or_false] at hc
  rcases hc with rfl | rfl | rfl | rfl <;> decide

theorem opening_cases (hfits : kind.Fits context post) :
    kind.opening.head? = some '/' ∨ ∃ c ∈ quotes, kind.opening = [c] := by
  cases kind with
  | string quote => exact .inr ⟨quote, by rcases hfits with rfl | rfl <;> decide, rfl⟩
  | regex | blockComment | lineComment => exact .inl rfl
  | template | templateTail => exact .inr ⟨_, by decide, rfl⟩

/-- What comes before a literal does not look into it, neither to cut lexemes nor to look ahead. -/
theorem junction {lexeme' : Lexeme} (hfits : kind.Fits context post)
    (hcut : cutAt context (kind.around body ++ post) = some ⟨lexeme, kind.around body, post⟩)
    (hcut' : cutAt context (kind.around other ++ post) = some ⟨lexeme', kind.around other, post⟩)
    (hlexeme : kind.opening.head? = some '/' → lexeme = lexeme') :
    Junction (kind.around body ++ post) (kind.around other ++ post) (kind.around other ++ post) 0 := by
  obtain hslash | ⟨c, hc, hopening⟩ := opening_cases hfits
  · obtain ⟨inner, hinner⟩ := List.head?_eq_some_iff.1 hslash
    have htext (body : List Char) :
        kind.around body ++ post = '/' :: (inner ++ (body ++ (kind.closing ++ post))) := by
      rw [around_append, hinner, List.cons_append]
    have halike : Alike (kind.around body ++ post) (kind.around other ++ post) := by
      rw [htext] at hcut hcut' ⊢
      rw [htext]
      have hcut := Option.some.inj hcut
      have hcut' := Option.some.inj hcut'
      refine .cons context ?_ ?_
      · rw [hcut, hcut']
        exact hlexeme hslash
      · rw [hcut, hcut']
        exact .refl post
    exact {
      covers before := by
        rw [htext, htext]
        exact Covers.append_barrier (by decide) before _ _
      alike := halike
      alike_landing := halike
      lands s offset := .refl _
      line hnone := by simp [htext, lineText] at hnone }
  · obtain ⟨hinert, hblank, hslash, hword⟩ := quotes_inert c hc
    rw [around_append, around_append, hopening]
    exact .of_visible (fun before => .append before _ hinert _) hblank hslash hword

end LiteralKind

end

/-- An offset, with `new` bytes in the place of the `old` bytes at `spot`. -/
def pastReplacement (spot old new offset : Nat) : Nat :=
  if offset < spot + old then offset else offset - old + new

section

variable {spot old new : Nat}

theorem pastReplacement_of_le (hold : 0 < old) {offset : Nat} (h : offset ≤ spot) :
    pastReplacement spot old new offset = offset := if_pos (by omega)

theorem pastReplacement_add (k : Nat) :
    pastReplacement spot old new (spot + old + k) = spot + new + k := by
  rw [pastReplacement, if_neg (by omega)]
  omega

/-- Outside what is replaced, offsets stay in order. -/
theorem pastReplacement_lt_iff (hold : 0 < old) (hnew : 0 < new) {m n : Nat}
    (hm : m ≤ spot ∨ spot + old ≤ m) (hn : n ≤ spot ∨ spot + old ≤ n) :
    pastReplacement spot old new m < pastReplacement spot old new n ↔ m < n := by
  simp only [pastReplacement]
  split <;> split <;> omega

end

theorem Place.Step.of_cutAt {s next : State} {offset : Nat} {text : List Char} {piece : Cut}
    {found : List Finding} (hcut : cutAt s.context text = some piece)
    (htake : s.take offset piece.lexeme piece.rest = ⟨found, .ok next⟩) :
    Step ⟨s, offset, text⟩ found ⟨next, offset + Text.byteSize piece.text, piece.rest⟩ := by
  cases text with
  | nil => simp [cutAt] at hcut
  | cons c rest => exact .intro (Option.some.inj hcut) htake

/-- All that is found in a text lies outside of a lexeme that runs into nothing, or at its start. -/
theorem Place.Reaches.outside {text : List Char} {p q : Place} {found : List Finding}
    (h : Reaches (start text) found p) (hstep : Step p [] q) :
    (∀ x ∈ (Ecma.scan text).findings, x.offset ≤ p.offset ∨ q.offset ≤ x.offset) ∧
      ∀ x ∈ (Ecma.scan text).fault, x.offset ≤ p.offset ∨ q.offset ≤ x.offset := by
  obtain ⟨hfound, hstate⟩ := h.before nofun
  obtain ⟨-, -, -, -, hnext⟩ := hstep.starts (P := (· ≤ p.offset))
  have hnext := hnext (hstate.imp fun _ => Nat.le_of_lt) le_rfl
  have hscan : Ecma.scan text = q.scan.after found := by
    rw [← Place.scan_start, h.scan, hstep.scan, Scan.after_nil]
  obtain ⟨hfindings, hfault⟩ :=
    scanFrom_starts (P := fun n => n ≤ p.offset ∨ q.offset ≤ n) q.state q.offset q.rest
  rw [hscan]
  refine ⟨fun x hx => ?_, hfault (hnext.imp fun _ => .inl) fun n hn => .inr hn.le⟩
  rcases List.mem_append.1 hx with hx | hx
  · exact .inl (hfound x hx).le
  · exact .inr (hfindings x hx).le

/-- A step is the same from a state that differs in nothing. -/
theorem Place.Step.embeds {p q : Place} {found : List Finding} (h : Step p found q) {t : State}
    (hembeds : Embeds id [] p.state t) : ∃ next, Embeds id [] q.state next ∧
      Step { p with state := t } found { q with state := next } := by
  obtain ⟨rfl, htake⟩ := h
  rename_i s next offset c rest
  have hcut : cut t.context c rest = cut s.context c rest := by rw [hembeds.context]
  have hoffset (k : Nat) : id (offset + k) = id offset + k := rfl
  obtain ⟨hfound, hcarried⟩ := hembeds.take hoffset (.refl _) (cut s.context c rest).lexeme (.inl rfl)
  rw [htake] at hfound hcarried
  generalize hturn : t.take (id offset) (cut s.context c rest).lexeme (cut s.context c rest).rest = turn
    at hfound hcarried
  obtain ⟨found', next'⟩ := turn
  obtain rfl : found' = found := hfound.trans (carry_id found)
  cases hcarried with
  | ok hnext => exact ⟨_, hnext, .intro hcut hturn⟩

/-- A state that differs in nothing finds the same. -/
theorem scanFrom_of_embeds {s t : State} (h : Embeds id [] s t) (offset : Nat) (text : List Char) :
    scanFrom t offset text = scanFrom s offset text := by
  have hsame : (scanFrom s offset text).relocate id = scanFrom s offset text := by
    have hid {α : Type} : Located.relocate (α := α) id = id := rfl
    rw [Scan.relocate, hid, hid, List.map_id, Option.map_id_fun, id_eq]
  exact (scanFrom_embeds h offset (fun _ => rfl) text).trans hsame

/-! A lexeme that runs into nothing, in the place of another one. -/

section

variable {pre old new post : List Char} {s last next next' : State} {found : List Finding}
  (h : Place.Reaches (Place.start (pre ++ (old ++ post))) found ⟨s, Text.byteSize pre, old ++ post⟩)
  (h' : Place.Reaches (Place.start (pre ++ (new ++ post))) found ⟨last, Text.byteSize pre, new ++ post⟩)
  (hold : Place.Step ⟨s, Text.byteSize pre, old ++ post⟩ []
    ⟨next, Text.byteSize pre + Text.byteSize old, post⟩)
  (hnew : Place.Step ⟨last, Text.byteSize pre, new ++ post⟩ []
    ⟨next', Text.byteSize pre + Text.byteSize new, post⟩)
  (hsame : ∀ offset, scanFrom next' offset post = scanFrom next offset post)

theorem Place.Step.byteSize_pos {offset after : Nat} (h : Step ⟨s, offset, old ++ post⟩ found ⟨next, after, post⟩) :
    0 < Text.byteSize old := by
  obtain ⟨text, hne, htext, -⟩ := h.exists_append
  obtain rfl : old = text := List.append_cancel_right htext
  exact Nat.lt_of_lt_of_le (List.length_pos_iff.2 hne) (Text.length_le_byteSize old)

include h h' hold hnew hsame

/-- If the scan goes on alike, all is found that was found, further on if it was behind. -/
theorem scan_replace : scan (pre ++ (new ++ post)) = (scan (pre ++ (old ++ post))).relocate
    (pastReplacement (Text.byteSize pre) (Text.byteSize old) (Text.byteSize new)) := by
  obtain ⟨hfound, hstate⟩ := h.before nofun
  obtain ⟨-, -, -, -, hnext⟩ := hold.starts (P := (· ≤ Text.byteSize pre))
  have hnext := hnext (hstate.imp fun _ => Nat.le_of_lt) le_rfl
  generalize hf : pastReplacement (Text.byteSize pre) (Text.byteSize old) (Text.byteSize new) = f
  have hstays (n : Nat) (hn : n ≤ Text.byteSize pre) : f n = n :=
    hf ▸ pastReplacement_of_le hold.byteSize_pos hn
  have hmoves (k : Nat) : f (Text.byteSize pre + Text.byteSize old + k) =
      Text.byteSize pre + Text.byteSize new + k := hf ▸ pastReplacement_add k
  have hspot : f (Text.byteSize pre + Text.byteSize old) = Text.byteSize pre + Text.byteSize new := hmoves 0
  have hearlier : found.map (Located.relocate f) = found :=
    map_relocate_of_fixed fun x hx => hstays _ (hfound x hx).le
  have hlater := scanFrom_embeds ((Embeds.refl next).of_fixed (hnext.imp hstays))
    (Text.byteSize pre + Text.byteSize old) (fun k => by rw [hmoves, hspot]) post
  rw [hspot] at hlater
  calc scan (pre ++ (new ++ post))
      _ = (scanFrom next' (Text.byteSize pre + Text.byteSize new) post).after found :=
        h'.scan.trans (congrArg (Scan.after found) hnew.scan)
      _ = ((scanFrom next (Text.byteSize pre + Text.byteSize old) post).after found).relocate f := by
        rw [hsame, hlater, Scan.relocate_after, hearlier]
      _ = (scan (pre ++ (old ++ post))).relocate f :=
        congrArg (Scan.relocate f) (h.scan.trans (congrArg (Scan.after found) hold.scan)).symm

/-- The same for what fails. -/
theorem attempt_replace (goal : Goal) :
    (probe.attempt (Utf8.encode (pre ++ (new ++ post))) goal : Verdict).mapError
        (fun failure => (failure.position.offset, failure.reason)) =
      (probe.attempt (Utf8.encode (pre ++ (old ++ post))) goal : Verdict).mapError
        fun failure => (pastReplacement (Text.byteSize pre) (Text.byteSize old) (Text.byteSize new)
          failure.position.offset, failure.reason) := by
  obtain ⟨hfindings, hfault⟩ := h.outside hold
  have hviolation : (scan (pre ++ (new ++ post))).violation? goal =
      ((scan (pre ++ (old ++ post))).violation? goal).map (Located.relocate
        (pastReplacement (Text.byteSize pre) (Text.byteSize old) (Text.byteSize new))) := by
    rw [scan_replace h h' hold hnew hsame]
    exact Scan.violation?_relocate_on
      (fun m n => pastReplacement_lt_iff hold.byteSize_pos hnew.byteSize_pos) hfindings hfault
  rw [probe_encode, probe_encode, judge, judge, hviolation]
  cases hv : (scan (pre ++ (old ++ post))).violation? goal with
  | none => rfl
  | some v =>
    have hlt := offset_lt_of_scan _ goal v hv
    have hlt' := offset_lt_of_scan _ goal _ (hviolation.trans (congrArg _ hv))
    simp only [Option.map_some, Except.mapError, Position.offset_ofOffset hlt.le,
      Position.offset_ofOffset hlt'.le]
    rfl

end

/-- Why a text fails under a goal, if it does. -/
def outcome (text : List Char) (goal : Goal) : Except String Unit :=
  (probe.attempt (Utf8.encode text) goal : Verdict).mapError Failure.reason

theorem outcome_eq (text : List Char) (goal : Goal) : outcome text goal =
    match (scan text).violation? goal with
    | some violation => .error violation.what.message
    | none => .ok () := by
  rw [outcome, probe_encode, judge]
  cases (scan text).violation? goal <;> rfl

theorem isNone_violation?_of_outcome {text other : List Char} {goal : Goal}
    (h : outcome text goal = outcome other goal) :
    ((scan text).violation? goal).isNone = ((scan other).violation? goal).isNone := by
  rw [outcome_eq, outcome_eq] at h
  cases hv : (scan text).violation? goal <;> cases hv' : (scan other).violation? goal <;> simp_all

/-- Texts that fail for the same reason, at whatever places. -/
theorem outcome_eq_of_attempt {text other : List Char} {goal : Goal} {f : Nat → Nat}
    (h : (probe.attempt (Utf8.encode text) goal : Verdict).mapError
        (fun failure => (failure.position.offset, failure.reason)) =
      (probe.attempt (Utf8.encode other) goal : Verdict).mapError
        fun failure => (f failure.position.offset, failure.reason)) :
    outcome text goal = outcome other goal := by
  rw [outcome, outcome]
  generalize (probe.attempt (Utf8.encode text) goal : Verdict) = verdict at h ⊢
  generalize (probe.attempt (Utf8.encode other) goal : Verdict) = verdict' at h ⊢
  cases verdict <;> cases verdict' <;> simp_all [Except.mapError]

section

variable {kind : LiteralKind} {pre body other post : List Char} {s : State} {found : List Finding}
  {lexeme : Lexeme}

namespace LiteralKind

theorem head?_around_ne_hash {context : Context} (hfits : kind.Fits context post) :
    (kind.around body ++ post).head? ≠ some '#' := by
  obtain hslash | ⟨c, hc, hopening⟩ := opening_cases hfits
  · obtain ⟨inner, hinner⟩ := List.head?_eq_some_iff.1 hslash
    simp [around, hinner]
  · have hne : c ≠ '#' := by
      rintro rfl
      exact absurd hc (by decide)
    simp [around, hopening, hne]

end LiteralKind

/--
Another body for a literal or comment changes no verdict: what fails does so for the same reason, at
the same place or as far behind the literal.
-/
theorem attempt_literal
    (h : Place.Reaches (Place.start (pre ++ (kind.around body ++ post))) found
      ⟨s, Text.byteSize pre, kind.around body ++ post⟩)
    (hcut : cutAt s.context (kind.around body ++ post) = some ⟨lexeme, kind.around body, post⟩)
    (hkind : kind.Matches lexeme) (hspecial : ∀ c ∈ kind.special, c ∉ body) (hplain : kind.Plain other)
    (hlines : kind = .blockComment → ('\n' ∈ other ↔ '\n' ∈ body)) (goal : Goal) :
    (probe.attempt (Utf8.encode (pre ++ (kind.around other ++ post))) goal : Verdict).mapError
        (fun failure => (failure.position.offset, failure.reason)) =
      (probe.attempt (Utf8.encode (pre ++ (kind.around body ++ post))) goal : Verdict).mapError
        fun failure => (pastReplacement (Utf8.encode pre).length (Utf8.encode (kind.around body)).length
          (Utf8.encode (kind.around other)).length failure.position.offset, failure.reason) := by
  have hfits := LiteralKind.fits_of_cut hcut hkind hspecial
  have hcut' := LiteralKind.cutAt_around hfits hplain
  obtain ⟨next, htake, htake'⟩ := LiteralKind.take_of_cut (Text.byteSize pre) hcut hkind hspecial hplain hlines
  have hstep := Place.Step.of_cutAt hcut htake
  -- Nothing before the literal looks into it, so the scan of the other text comes to it as well.
  obtain ⟨last, hlast, hreaches⟩ := h.splice_start
    (LiteralKind.junction hfits hcut hcut' fun hslash => LiteralKind.lexeme_of_cut hcut hkind hslash hlines)
    (LiteralKind.head?_around_ne_hash hfits) rfl
  obtain ⟨next', hnext', hstep'⟩ := (Place.Step.of_cutAt hcut' htake').embeds hlast
  simp only [Utf8.length_encode]
  exact attempt_replace h hreaches hstep hstep' (fun offset => scanFrom_of_embeds hnext' offset post) goal

end

/-- A quote and a bracket in a regular expression stay without effect. -/
theorem attempt_literal_of_regex :
    (probe.attempt (Utf8.ofString "(/'(/g)\nawait x") .script : Verdict).mapError
        (fun failure => (failure.position.offset, failure.reason)) =
      .error (8, "'await' is only valid in async functions and module code") := by
  let opened : State := State.takeOpener {} 0 .round
  have hopen : Place.Step ⟨{}, 0, "(/a/g)\nawait x".toList⟩ [] ⟨opened, 1, "/a/g)\nawait x".toList⟩ :=
    .intro rfl rfl
  have hreaches : Place.Reaches
      (Place.start ("(".toList ++ ((LiteralKind.regex ['g']).around ['a'] ++ ")\nawait x".toList))) []
      ⟨opened, Text.byteSize "(".toList, (LiteralKind.regex ['g']).around ['a'] ++ ")\nawait x".toList⟩ :=
    .single hopen
  have hcut : cutAt opened.context ((LiteralKind.regex ['g']).around ['a'] ++ ")\nawait x".toList) =
      some ⟨.regex, (LiteralKind.regex ['g']).around ['a'], ")\nawait x".toList⟩ := rfl
  have hplain : (LiteralKind.regex ['g']).Plain "'(".toList :=
    ⟨by decide, by decide, by simp⟩
  have hfails : (scan ("(".toList ++ ((LiteralKind.regex ['g']).around ['a'] ++ ")\nawait x".toList))).violation?
      .script = some ⟨7, .restriction .await⟩ := by decide +kernel
  refine (attempt_literal hreaches hcut trivial (by simp [LiteralKind.special]) hplain nofun .script).trans ?_
  rw [probe_encode, judge, hfails]
  rfl

end ParseGoal.Ecma
