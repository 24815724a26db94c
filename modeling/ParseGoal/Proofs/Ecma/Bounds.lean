import ParseGoal.Proofs.Ecma.Cut
import ParseGoal.Proofs.Ecma.Place

/-!
Where things are found. What a lexeme runs into stands at a character of it, further on from one finding
to the next. A fault, and a bracket that stays open, is at the start of a lexeme.
-/
namespace ParseGoal.Ecma

/-- The offsets at which the characters of a text start, when the text itself starts at `offset`. -/
def Starts (offset : Nat) (text : List Char) (n : Nat) : Prop :=
  ∃ first later, first ++ later = text ∧ later ≠ [] ∧ n = offset + Text.byteSize first

namespace Starts

variable {offset n : Nat} {text : List Char}

theorem cons (offset : Nat) (c : Char) (text : List Char) : Starts offset (c :: text) offset :=
  ⟨[], c :: text, rfl, List.cons_ne_nil c text, rfl⟩

theorem le (h : Starts offset text n) : offset ≤ n := by
  obtain ⟨first, later, -, -, rfl⟩ := h
  exact Nat.le_add_right ..

theorem lt (h : Starts offset text n) : n < offset + Text.byteSize text := by
  obtain ⟨first, later, rfl, hne, rfl⟩ := h
  have hpos : 0 < Text.byteSize later :=
    Nat.lt_of_lt_of_le (List.length_pos_iff.2 hne) (Text.length_le_byteSize later)
  rw [Text.byteSize_append]
  omega

theorem append_left (h : Starts offset text n) (more : List Char) : Starts offset (text ++ more) n := by
  obtain ⟨first, later, rfl, hne, rfl⟩ := h
  exact ⟨first, later ++ more, by rw [List.append_assoc], by simp [hne], rfl⟩

theorem append_right {before : List Char} (h : Starts (offset + Text.byteSize before) text n) :
    Starts offset (before ++ text) n := by
  obtain ⟨first, later, rfl, hne, rfl⟩ := h
  exact ⟨before ++ first, later, by rw [List.append_assoc], hne, by
    rw [Text.byteSize_append, Nat.add_assoc]⟩

end Starts

/-! Strings. -/

/-- The elements of a string are what its text starts with, whether it ends or not. -/
theorem stringText_prefix (quote : Char) (text : List Char) :
    stringText (stringParts quote text).1 <+: text := by
  fun_induction stringParts quote text with
  | case1 | case2 | case5 | case6 => exact List.nil_prefix
  | case3 rest parts after heq ih => simpa [stringText, StringPart.text, heq] using ih
  | case4 d rest _ parts after heq ih => simpa [stringText, StringPart.text, heq] using ih
  | case7 c rest _ _ _ parts after heq ih => simpa [stringText, StringPart.text, heq] using ih

/-- An octal escape is at a character of the text that the elements are written with. -/
theorem starts_octalOffsets {start n : Nat} {parts : List StringPart}
    (h : n ∈ octalOffsets start parts) : Starts start (stringText parts) n := by
  induction parts generalizing start with
  | nil => simp [octalOffsets] at h
  | cons part parts ih =>
    have htext : stringText (part :: parts) = part.text ++ stringText parts := List.flatMap_cons ..
    have hfirst : Starts start (part.text ++ stringText parts) start := by
      cases part <;> exact .cons ..
    have hlater (h : n ∈ octalOffsets (start + Text.byteSize part.text) parts) :
        Starts start (part.text ++ stringText parts) n := (ih h).append_right
    rw [octalOffsets] at h
    rw [htext]
    split at h
    · exact (List.mem_cons.1 h).elim (fun hn => hn ▸ hfirst) hlater
    · exact hlater h

theorem pairwise_octalOffsets (start : Nat) (parts : List StringPart) :
    (octalOffsets start parts).Pairwise (· < ·) := by
  induction parts generalizing start with
  | nil => exact .nil
  | cons part parts ih =>
    rw [octalOffsets]
    split
    · refine .cons (fun n hn => ?_) (ih _)
      have hpos : 0 < Text.byteSize part.text :=
        Nat.lt_of_lt_of_le (by cases part <;> exact Nat.succ_pos _) (Text.length_le_byteSize _)
      have hle := (starts_octalOffsets hn).le
      omega
    · exact ih _

/-- The elements of the string that a lexeme is. -/
def Lexeme.parts : Lexeme → List StringPart
  | .string parts | .openString parts => parts
  | _ => []

theorem cut_quote {c : Char} (hc : c = '\'' ∨ c = '"') (context : Context) (rest : List Char) :
    cut context c rest = cutString c rest := by
  rcases hc with rfl | rfl <;> simp [cut, isInlineBlank]

theorem parts_cut {c : Char} (hc : ¬ (c = '\'' ∨ c = '"')) (context : Context) (rest : List Char) :
    (cut context c rest).lexeme.parts = [] := by
  fun_cases cut context c rest with
  | case3 => fun_cases cutSlash context rest <;> rfl
  | case6 => contradiction
  | case7 | case8 =>
    rw [cutTemplate]
    split <;> rfl
  | case16 =>
    rw [cutWide]
    split_ifs <;> rfl
  | _ => rfl

/-- The elements of a string, with the quote before them, are what its text starts with. -/
theorem parts_prefix_cut (context : Context) (c : Char) (rest : List Char) :
    c :: stringText (cut context c rest).lexeme.parts <+: (cut context c rest).text := by
  by_cases hc : c = '\'' ∨ c = '"'
  · rw [cut_quote hc, cutString]
    split
    · exact List.cons_prefix_cons.2 ⟨rfl, List.prefix_append ..⟩
    · next h =>
      have hparts := stringText_prefix c rest
      rw [h] at hparts
      exact List.cons_prefix_cons.2 ⟨rfl, hparts⟩
  · rw [parts_cut hc, cut_text]
    exact List.cons_prefix_cons.2 ⟨rfl, List.nil_prefix⟩

theorem starts_of_mem_octalOffsets {context : Context} {c : Char} {rest : List Char} {start n : Nat}
    (h : n ∈ octalOffsets (start + 1) (cut context c rest).lexeme.parts) :
    Starts start (cut context c rest).text n := by
  have hc : c = '\'' ∨ c = '"' := by
    by_contra hc
    rw [parts_cut hc] at h
    exact absurd h List.not_mem_nil
  have hsize : c.utf8Size = 1 := by rcases hc with rfl | rfl <;> rfl
  have hquote : Starts start ([c] ++ stringText (cut context c rest).lexeme.parts) n := by
    refine Starts.append_right ?_
    rw [Text.byteSize_cons, hsize]
    exact starts_octalOffsets h
  obtain ⟨more, htext⟩ := parts_prefix_cut context c rest
  rw [← htext]
  exact hquote.append_left more

/-! One lexeme. -/

theorem byteSize_cut_pos (context : Context) (c : Char) (rest : List Char) :
    0 < Text.byteSize (cut context c rest).text := by
  rw [cut_text, Text.byteSize_cons]
  exact Nat.lt_of_lt_of_le c.utf8Size_pos (Nat.le_add_right ..)

theorem State.afterWord_frames (s : State) (word : String) : (s.afterWord word).frames = s.frames := by
  rw [State.afterWord]
  split <;> rfl

/-- A lexeme runs into its octal escapes, or into something at its start that leaves the brackets as they are. -/
theorem State.offsets_take (s : State) (start : Nat) (lexeme : Lexeme) (rest : List Char) :
    (s.take start lexeme rest).findings.map Located.offset = octalOffsets (start + 1) lexeme.parts ∨
      ∃ r next, s.take start lexeme rest = ⟨[⟨start, r⟩], .ok next⟩ ∧ next.frames = s.frames := by
  have hoctal (parts : List StringPart) :
      ((octalOffsets (start + 1) parts).map (Located.mk · Restriction.octalEscape)).map Located.offset =
        octalOffsets (start + 1) parts := by
    rw [List.map_map]
    exact List.map_id _
  cases lexeme with
  | string parts | openString parts => exact .inl (hoctal parts)
  | htmlComment => exact .inr ⟨_, _, rfl, rfl⟩
  | number legacy =>
    cases legacy with
    | false => exact .inl rfl
    | true => exact .inr ⟨_, _, rfl, rfl⟩
  | word text =>
    simp only [State.take]
    cases (if s.afterPoint then none else s.restriction? text rest) with
    | none => exact .inl rfl
    | some r => exact .inr ⟨r, _, rfl, s.afterWord_frames text⟩
  | template stop => cases stop <;> exact .inl rfl
  | templateTail stop =>
    simp only [State.take, State.takeTail]
    split
    · exact .inl rfl
    · cases stop <;> exact .inl rfl
  | _ => exact .inl rfl

/-- What a lexeme runs into stands at a character of it. -/
theorem starts_of_mem_take {s : State} {start : Nat} {context : Context} {c : Char}
    {rest after : List Char} {x : Finding}
    (h : x ∈ (s.take start (cut context c rest).lexeme after).findings) :
    Starts start (cut context c rest).text x.offset := by
  obtain hoctal | ⟨r, next, htake, -⟩ := s.offsets_take start (cut context c rest).lexeme after
  · have hmem := List.mem_map_of_mem (f := Located.offset) h
    rw [hoctal] at hmem
    exact starts_of_mem_octalOffsets hmem
  · rw [htake] at h
    obtain rfl := List.mem_singleton.1 h
    rw [cut_text]
    exact .cons ..

theorem State.pairwise_take (s : State) (start : Nat) (lexeme : Lexeme) (rest : List Char) :
    (s.take start lexeme rest).findings.Pairwise fun x y => x.offset < y.offset := by
  obtain hoctal | ⟨r, next, htake, -⟩ := s.offsets_take start lexeme rest
  · rw [← List.pairwise_map (f := Located.offset), hoctal]
    exact pairwise_octalOffsets ..
  · rw [htake]
    exact List.pairwise_singleton ..

/-- All open brackets are at offsets with a property. -/
def State.All (P : Nat → Prop) (s : State) : Prop := ∀ frame ∈ s.frames, P frame.start

/-- The fault, if there is one, and all open brackets are at offsets with a property. -/
structure Turn.All (P : Nat → Prop) (turn : Turn) : Prop where
  fault : ∀ x, turn.next = .error x → P x.offset
  next : ∀ s, turn.next = .ok s → s.All P

section

variable {P : Nat → Prop} {start : Nat} {s : State} {found : List Finding}

theorem Turn.all_ok (h : s.All P) : Turn.All P ⟨found, .ok s⟩ where
  fault := nofun
  next _ heq := Except.ok.inj heq ▸ h

theorem Turn.all_error {x : Located Fault} (h : P x.offset) : Turn.All P ⟨found, .error x⟩ where
  fault _ heq := Except.error.inj heq ▸ h
  next := nofun

namespace State.All

theorem imp {Q : Nat → Prop} (h : s.All P) (himp : ∀ n, P n → Q n) : s.All Q :=
  fun frame hframe => himp _ (h frame hframe)

theorem push (h : s.All P) (hstart : P start) (enclosure : Enclosure) : (s.push enclosure start).All P := by
  intro frame hframe
  rcases List.mem_cons.1 hframe with rfl | hframe
  · exact hstart
  · exact h frame hframe

theorem takeTemplate (h : s.All P) (hstart : P start) (stop : Option TemplateStop) :
    (s.takeTemplate start stop).All P := by
  cases stop with
  | none => exact Turn.all_error hstart
  | some stop =>
    cases stop with
    | close => exact Turn.all_ok h
    | hole => exact Turn.all_ok (h.push hstart .substitution)

theorem takeTail (h : s.All P) (hstart : P start) (stop : Option TemplateStop) :
    (s.takeTail start stop).All P := by
  rw [State.takeTail]
  split
  · exact Turn.all_error hstart
  · next frame outer hframes =>
    have houter : ∀ x ∈ frame :: outer, P x.start := hframes ▸ h
    have hpopped : State.All P ({ s with frames := outer }.endArrows (outer.length + 1)) :=
      fun x hx => houter x (List.mem_cons_of_mem _ hx)
    exact hpopped.takeTemplate (houter frame List.mem_cons_self) stop

theorem takeOpener (h : s.All P) (hstart : P start) (d : Delimiter) : (s.takeOpener start d).All P := by
  rw [State.takeOpener]
  split
  · exact push (s := { s with classDepth := none }) h hstart _
  · exact h.push hstart _

theorem takeCloser (h : s.All P) (hstart : P start) (d : Delimiter) :
    Turn.All P ⟨[], s.takeCloser start d⟩ := by
  rw [State.takeCloser]
  split
  · exact Turn.all_error hstart
  · next frame outer hframes =>
    have houter : ∀ x ∈ frame :: outer, P x.start := hframes ▸ h
    split
    · exact Turn.all_ok fun x hx => houter x (List.mem_cons_of_mem _ hx)
    · exact Turn.all_error hstart

/-- A lexeme is at fault at its start or at that of an open bracket, and opens brackets only at its start. -/
theorem take (h : s.All P) (hstart : P start) (lexeme : Lexeme) (rest : List Char) :
    (s.take start lexeme rest).All P := by
  cases lexeme with
  | lineBreak | blank | lineComment | htmlComment | string parts | regex | number legacy | update =>
    exact Turn.all_ok h
  | blockComment multiline => cases multiline <;> exact Turn.all_ok h
  | openComment | openString parts | openRegex => exact Turn.all_error hstart
  | template stop => exact h.takeTemplate hstart stop
  | templateTail stop => exact h.takeTail hstart stop
  | opener d => exact Turn.all_ok (h.takeOpener hstart d)
  | closer d => exact h.takeCloser hstart d
  | arrow | punctuator c =>
    refine Turn.all_ok ?_
    split <;> exact h
  | word text =>
    refine Turn.all_ok ?_
    rw [State.All, s.afterWord_frames]
    exact h

end State.All

end

/-! Whole stretches of a scan. -/

namespace Place

variable {P : Nat → Prop} {p q : Place} {found : List Finding}

theorem Step.starts (h : Step p found q) : ∃ text, p.rest = text ++ q.rest ∧
    q.offset = p.offset + Text.byteSize text ∧ (∀ x ∈ found, Starts p.offset text x.offset) ∧
      (p.state.All P → P p.offset → q.state.All P) := by
  obtain ⟨rfl, htake⟩ := h
  rename_i s next offset c rest
  refine ⟨(cut s.context c rest).text, (cut_append ..).symm, rfl, fun x hx => ?_, fun hs hstart => ?_⟩
  · have hmem : x ∈ (s.take offset (cut s.context c rest).lexeme (cut s.context c rest).rest).findings := by
      rwa [htake]
    exact starts_of_mem_take hmem
  · exact (hs.take hstart _ _).next next (by rw [htake])

/-- What a scan finds between two places stands at characters between them, and so do brackets it opens. -/
theorem Reaches.starts (h : Reaches p found q) {text : List Char} (htext : p.rest = text ++ q.rest) :
    (∀ x ∈ found, Starts p.offset text x.offset) ∧
      (p.state.All P → (∀ n, Starts p.offset text n → P n) → q.state.All P) := by
  induction h generalizing text with
  | refl => exact ⟨nofun, fun hs _ => hs⟩
  | step hstep hreaches ih =>
    obtain ⟨first, hne, hfirst, -⟩ := hstep.exists_append
    obtain ⟨first', hfirst', hoffset, hfound, hstate⟩ := hstep.starts (P := P)
    obtain ⟨later, hlater, -⟩ := hreaches.exists_append
    obtain rfl : first' = first := List.append_cancel_right (hfirst'.symm.trans hfirst)
    obtain rfl : text = first' ++ later := by
      rw [hfirst, hlater, ← List.append_assoc] at htext
      exact (List.append_cancel_right htext).symm
    obtain ⟨hfound', hstate'⟩ := ih hlater
    rw [hoffset] at hfound' hstate'
    refine ⟨fun x hx => ?_, fun hs hP => hstate' (hstate hs (hP _ ?_)) fun n hn => hP n hn.append_right⟩
    · rcases List.mem_append.1 hx with hx | hx
      · exact (hfound x hx).append_left later
      · exact (hfound' x hx).append_right
    · obtain ⟨c, first', rfl⟩ := List.exists_cons_of_ne_nil hne
      exact .cons ..

/-- All that is found or left open on the way lies behind. -/
theorem Reaches.before (h : Reaches p found q) (hp : p.state.All (· < p.offset)) :
    (∀ x ∈ found, x.offset < q.offset) ∧ q.state.All (· < q.offset) := by
  obtain ⟨text, htext, hoffset⟩ := h.exists_append
  obtain ⟨hfound, hstate⟩ := h.starts (P := (· < q.offset)) htext
  refine ⟨fun x hx => hoffset ▸ (hfound x hx).lt, hstate (hp.imp fun n hn => ?_) fun n hn => hoffset ▸ hn.lt⟩
  omega

end Place

/-- The same for what a scan finds from a place on. -/
theorem scanFrom_starts {P : Nat → Prop} (s : State) (offset : Nat) (text : List Char) :
    (∀ x ∈ (scanFrom s offset text).findings, Starts offset text x.offset) ∧
      (s.All P → (∀ n, Starts offset text n → P n) →
        ∀ x ∈ (scanFrom s offset text).fault, P x.offset) := by
  fun_induction scanFrom s offset text with
  | case1 s offset =>
    refine ⟨List.forall_mem_nil _, fun hs _ x hx => ?_⟩
    obtain ⟨frame, hframe, rfl⟩ := Option.map_eq_some_iff.1 hx
    exact hs frame (List.mem_of_head? hframe)
  | case2 s offset c rest piece turn fault hfault =>
    have htext : piece.text ++ piece.rest = c :: rest := cut_append ..
    refine ⟨fun x hx => ?_, fun hs hP x hx => ?_⟩
    · rw [← htext]
      exact (starts_of_mem_take hx).append_left _
    · obtain rfl : fault = x := Option.some.inj hx
      exact (hs.take (hP _ (.cons ..)) _ _).fault fault hfault
  | case3 s offset c rest piece turn next hnext ih =>
    have htext : piece.text ++ piece.rest = c :: rest := cut_append ..
    obtain ⟨hfindings, hfault⟩ := ih
    refine ⟨fun x hx => ?_, fun hs hP => hfault ?_ fun n hn => hP n ?_⟩
    · rw [← htext]
      rcases List.mem_append.1 hx with hx | hx
      · exact (starts_of_mem_take hx).append_left _
      · exact (hfindings x hx).append_right
    · exact (hs.take (hP _ (.cons ..)) _ _).next next hnext
    · rw [← htext]
      exact hn.append_right

end ParseGoal.Ecma
