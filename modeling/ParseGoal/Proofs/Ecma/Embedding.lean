import ParseGoal.Proofs.Ecma.Bounds
import ParseGoal.Proofs.Ecma.Lookahead

/-!
One scan inside another. The state of the second is that of the first with function bodies around it,
and with all offsets moved. Each lexeme keeps it so, and what is found is the same, except that the
inside of a function allows some of it.
-/
namespace ParseGoal.Ecma

/-- Something at another offset. -/
def Located.relocate {α : Type} (f : Nat → Nat) (x : Located α) : Located α :=
  { x with offset := f x.offset }

/-- A bracket at another offset. -/
def Frame.relocate (f : Nat → Nat) (frame : Frame) : Frame := { frame with start := f frame.start }

/-- Whether a construct is rejected inside functions too. -/
def Restriction.holdsInside : Restriction → Bool
  | .importDeclaration | .exportDeclaration | .await | .forAwait => false
  | _ => true

/-- Whether a construct is still rejected when function bodies stand around it, if any do. -/
def Restriction.holdsWithin (outer : List Frame) (r : Restriction) : Bool :=
  outer.isEmpty || r.holdsInside

/-- What some findings become within function bodies and at other offsets. -/
def carry (f : Nat → Nat) (outer : List Frame) (found : List Finding) : List Finding :=
  (found.filter (·.what.holdsWithin outer)).map (Located.relocate f)

/--
The state `t` is `s` at other offsets and within the function bodies `outer`, except for where a
statement may start.
-/
structure Nests (f : Nat → Nat) (outer : List Frame) (s t : State) : Prop where
  isBody : ∀ frame ∈ outer, frame.enclosure = .functionBody
  frames : t.frames = s.frames.map (Frame.relocate f) ++ outer
  /-- What stands before the first token is nothing, a semicolon or an opening brace. -/
  previous : t.previous = s.previous ∨ s.previous = none ∧
    (t.previous = some (.punctuator ';') ∨ t.previous = some (.punctuator '{'))
  lineStart : t.lineStart = s.lineStart
  controlNext : t.controlNext = s.controlNext
  classDepth : t.classDepth = s.classDepth.map (· + outer.length)
  arrowDepths : t.arrowDepths = s.arrowDepths.map (· + outer.length)

/-- The state `t` is `s` at other offsets and within the function bodies `outer`. -/
structure Embeds (f : Nat → Nat) (outer : List Frame) (s t : State) : Prop extends
    Nests f outer s t where
  /-- Inside a function, nothing that has to start a statement is looked for. -/
  atStatementStart : outer = [] → t.atStatementStart = s.atStatementStart

/--
What becomes of the state or the fault after a lexeme. A fault is the same only without brackets
around: these could be closed.
-/
inductive Carried (f : Nat → Nat) (outer : List Frame) :
    Except (Located Fault) State → Except (Located Fault) State → Prop
  | ok {s t : State} (h : Embeds f outer s t) : Carried f outer (.ok s) (.ok t)
  | error (h : outer = []) (fault : Located Fault) :
      Carried f outer (.error fault) (.error (fault.relocate f))

section

variable {f : Nat → Nat} {outer : List Frame} {s t : State}

namespace Nests

theorem depth (h : Nests f outer s t) : t.depth = s.depth + outer.length := by
  simp [State.depth, h.frames]

theorem isEmpty_frames (h : Nests f outer s t) :
    t.frames.isEmpty = (s.frames.isEmpty && outer.isEmpty) := by
  rw [h.frames]
  cases s.frames <;> simp

theorem previous_eq_some (h : Nests f outer s t) (token : Token)
    (hsemicolon : token ≠ .punctuator ';') (hbrace : token ≠ .punctuator '{') :
    t.previous = some token ↔ s.previous = some token := by
  rcases h.previous with heq | ⟨hnone, heq | heq⟩
  · rw [heq]
  · simp [hnone, heq, hsemicolon.symm]
  · simp [hnone, heq, hbrace.symm]

theorem innermost (h : Nests f outer s t) :
    t.frames.head?.map Frame.enclosure = s.frames.head?.map Frame.enclosure ∨
      s.frames = [] ∧ t.frames.head?.map Frame.enclosure = some .functionBody := by
  rw [h.frames]
  cases s.frames with
  | cons frame frames => exact .inl rfl
  | nil =>
    cases outer with
    | nil => exact .inl rfl
    | cons frame outer => exact .inr ⟨rfl, by simp [h.isBody frame]⟩

theorem context (h : Nests f outer s t) : t.context = s.context := by
  have hregex : regexAfter t.previous = regexAfter s.previous := by
    rcases h.previous with heq | ⟨hnone, heq | heq⟩
    · rw [heq]
    · rw [heq, hnone]
      rfl
    · rw [heq, hnone]
      rfl
  have hinner : (t.frames.head?.map Frame.enclosure == some .substitution) =
      (s.frames.head?.map Frame.enclosure == some .substitution) := by
    rcases h.innermost with heq | ⟨hnil, heq⟩
    · rw [heq]
    · rw [heq, hnil]
      rfl
  simp only [State.context, hregex, hinner, h.lineStart]

theorem afterPoint (h : Nests f outer s t) : t.afterPoint = s.afterPoint := by
  rw [State.afterPoint, State.afterPoint, Bool.eq_iff_iff, beq_iff_eq, beq_iff_eq]
  exact h.previous_eq_some _ nofun nofun

theorem enclosureOf (h : Nests f outer s t) (d : Delimiter) : t.enclosureOf d = s.enclosureOf d := by
  have hround := h.previous_eq_some (.close .round) nofun nofun
  have harrow := h.previous_eq_some (.arrow) nofun nofun
  have hclass : t.classDepth = some t.depth ↔ s.classDepth = some s.depth := by
    rw [h.classDepth, h.depth]
    cases s.classDepth <;> simp
  simp only [State.enclosureOf, h.controlNext, hclass, hround, harrow]

theorem inFunction (h : Nests f outer s t) : t.inFunction = (s.inFunction || !outer.isEmpty) := by
  have hany : outer.any (·.enclosure == .functionBody) = !outer.isEmpty := by
    have hbody := h.isBody
    cases outer with
    | nil => rfl
    | cons frame outer => simp [hbody frame]
  rw [State.inFunction, State.inFunction, h.frames, h.arrowDepths, List.any_append, hany,
    List.any_map]
  cases s.arrowDepths <;> simp [Frame.relocate, Function.comp_def]

theorem namesBinding (h : Nests f outer s t) {rest other : List Char} (halike : Alike rest other) :
    t.namesBinding other = s.namesBinding rest := by
  have hcolon := halike.next ':' (by decide)
  have hround : (nextSignificant other != some '(') = (nextSignificant rest != some '(') := by
    rw [Bool.eq_iff_iff]
    simpa using not_congr (halike.next '(' (by decide)).symm
  simp only [State.namesBinding, hcolon, hround]
  rcases h.innermost with heq | ⟨hnil, heq⟩
  · rw [heq]
  · rw [heq, hnil]
    rfl

/-! What changes the state keeps it nested, and a token makes it embedded. -/

theorem afterToken (h : Nests f outer s t) (token : Token) :
    Embeds f outer (s.afterToken token) (t.afterToken token) where
  isBody := h.isBody
  frames := h.frames
  previous := .inl rfl
  lineStart := rfl
  controlNext := rfl
  classDepth := h.classDepth
  arrowDepths := h.arrowDepths
  atStatementStart houter := by
    simp [State.afterToken, State.atStatementStart, h.isEmpty_frames, houter]

theorem endArrows (h : Nests f outer s t) (depth : Nat) :
    Nests f outer (s.endArrows depth) (t.endArrows (depth + outer.length)) where
  isBody := h.isBody
  frames := h.frames
  previous := h.previous
  lineStart := h.lineStart
  controlNext := h.controlNext
  classDepth := h.classDepth
  arrowDepths := by
    simp only [State.endArrows, h.arrowDepths, List.filter_map]
    congr 2
    funext n
    simp

theorem push (h : Nests f outer s t) (enclosure : Enclosure) (start : Nat) :
    Nests f outer (s.push enclosure start) (t.push enclosure (f start)) where
  isBody := h.isBody
  frames := by simp [State.push, h.frames, Frame.relocate]
  previous := h.previous
  lineStart := h.lineStart
  controlNext := h.controlNext
  classDepth := h.classDepth
  arrowDepths := h.arrowDepths

/-- After the innermost bracket and the arrows in it. -/
theorem pop (h : Nests f outer s t) (frames : List Frame) :
    Nests f outer ({ s with frames := frames }.endArrows (frames.length + 1))
      ({ t with frames := frames.map (Frame.relocate f) ++ outer }.endArrows
        ((frames.map (Frame.relocate f) ++ outer).length + 1)) := by
  have hpopped : Nests f outer { s with frames := frames }
      { t with frames := frames.map (Frame.relocate f) ++ outer } := { h with frames := rfl }
  have hlength : (frames.map (Frame.relocate f) ++ outer).length + 1 =
      frames.length + 1 + outer.length := by
    simp only [List.length_append, List.length_map]
    omega
  rw [hlength]
  exact hpopped.endArrows _

theorem takeOpener (h : Nests f outer s t) (start : Nat) (d : Delimiter) :
    Embeds f outer (s.takeOpener start d) (t.takeOpener (f start) d) := by
  rw [State.takeOpener, State.takeOpener, h.enclosureOf]
  split
  · have hcleared : Nests f outer { s with classDepth := none } { t with classDepth := none } :=
      { h with classDepth := rfl }
    exact (hcleared.push _ _).afterToken _
  · exact (h.push _ _).afterToken _

theorem takeCloser (h : Nests f outer s t) (start : Nat) (d : Delimiter)
    (hok : outer = [] ∨ ∃ next, s.takeCloser start d = .ok next) :
    Carried f outer (s.takeCloser start d) (t.takeCloser (f start) d) := by
  have hframes := h.frames
  rw [State.takeCloser] at hok ⊢
  rw [State.takeCloser]
  cases hs : s.frames with
  | nil =>
    obtain rfl : outer = [] := hok.resolve_right (by simp [hs])
    simp only [hframes, hs, List.map_nil, List.append_nil]
    exact .error rfl ⟨start, _⟩
  | cons frame frames =>
    simp only [hframes, hs, List.map_cons, List.cons_append]
    by_cases hd : frame.enclosure.delimiter = d
    · have hd' : (frame.relocate f).enclosure.delimiter = d := hd
      rw [if_pos hd, if_pos hd']
      exact .ok ((h.pop frames).afterToken _)
    · have hd' : ¬ (frame.relocate f).enclosure.delimiter = d := hd
      obtain rfl : outer = [] := hok.resolve_right (by simp [hs, hd])
      rw [if_neg hd, if_neg hd']
      exact .error rfl ⟨start, _⟩

theorem takeTemplate (h : Nests f outer s t) (start : Nat) (stop : Option TemplateStop)
    (hok : outer = [] ∨ ∃ next, (s.takeTemplate start stop).next = .ok next) :
    (t.takeTemplate (f start) stop).findings = carry f outer (s.takeTemplate start stop).findings ∧
      Carried f outer (s.takeTemplate start stop).next (t.takeTemplate (f start) stop).next := by
  cases stop with
  | none =>
    refine ⟨rfl, .error (hok.resolve_right ?_) ⟨start, .openTemplate⟩⟩
    simp [State.takeTemplate]
  | some stop =>
    cases stop with
    | close => exact ⟨rfl, .ok (h.afterToken _)⟩
    | hole => exact ⟨rfl, .ok ((h.push _ _).afterToken _)⟩

theorem takeTail (h : Nests f outer s t) (start : Nat) (stop : Option TemplateStop)
    (hok : outer = [] ∨ ∃ next, (s.takeTail start stop).next = .ok next) :
    (t.takeTail (f start) stop).findings = carry f outer (s.takeTail start stop).findings ∧
      Carried f outer (s.takeTail start stop).next (t.takeTail (f start) stop).next := by
  have hframes := h.frames
  rw [State.takeTail] at hok ⊢
  rw [State.takeTail]
  cases hs : s.frames with
  | nil =>
    obtain rfl : outer = [] := hok.resolve_right (by simp [hs])
    simp only [hframes, hs, List.map_nil, List.append_nil]
    exact ⟨rfl, .error rfl ⟨start, _⟩⟩
  | cons frame frames =>
    simp only [hframes, hs, List.map_cons, List.cons_append] at hok ⊢
    exact (h.pop frames).takeTemplate frame.start stop hok

theorem afterWord (h : Nests f outer s t) (word : String) :
    Embeds f outer (s.afterWord word) (t.afterWord word) := by
  have hfor : (t.previous == some (.word "for")) = (s.previous == some (.word "for")) := by
    rw [Bool.eq_iff_iff, beq_iff_eq, beq_iff_eq]
    exact h.previous_eq_some _ nofun nofun
  rw [State.afterWord, State.afterWord, h.afterPoint]
  split
  · exact h.afterToken _
  · exact { h.afterToken (.word word) with
      controlNext := by simp [State.opensHead, hfor]
      classDepth := by
        split
        · simp [h.depth]
        · exact h.classDepth }

end Nests

namespace Embeds

theorem refl (s : State) : Embeds id [] s s where
  isBody := nofun
  frames := by
    rw [List.append_nil]
    exact (List.map_id _).symm
  previous := .inl rfl
  lineStart := rfl
  controlNext := rfl
  classDepth := (Option.map_id' ..).symm
  arrowDepths := (List.map_id _).symm
  atStatementStart _ := rfl

theorem afterNewline (h : Embeds f outer s t) : Embeds f outer s.afterNewline t.afterNewline where
  isBody := h.isBody
  frames := h.frames
  previous := h.previous
  lineStart := rfl
  controlNext := h.controlNext
  classDepth := h.classDepth
  arrowDepths := h.arrowDepths
  atStatementStart houter := by
    have hstart (u : State) : u.afterNewline.atStatementStart = u.frames.isEmpty := by
      simp only [State.atStatementStart, State.afterNewline]
      split <;> simp
    rw [hstart, hstart, h.isEmpty_frames, houter, List.isEmpty_nil, Bool.and_true]

theorem restriction? (h : Embeds f outer s t) (word : String) {rest other : List Char}
    (halike : Alike rest other) :
    t.restriction? word other = (s.restriction? word rest).filter (·.holdsWithin outer) := by
  have hround := halike.next '(' (by decide)
  have hpoint := halike.next '.' (by decide)
  have hfor := h.previous_eq_some (.word "for") nofun nofun
  have hvar := h.previous_eq_some (.word "var") nofun nofun
  have hfunction := h.previous_eq_some (.word "function") nofun nofun
  simp only [State.restriction?, ← hround, ← hpoint, hfor, hvar, hfunction, h.inFunction,
    h.namesBinding halike, ← halike.operand]
  cases outer with
  | nil =>
    have hfilter (found : Option Restriction) : found.filter (·.holdsWithin []) = found := by
      cases found <;> rfl
    simp only [h.atStatementStart rfl, List.isEmpty_nil, Bool.not_true, Bool.or_false, hfilter]
  | cons frame outer =>
    have hstart : t.atStatementStart = false := by simp [State.atStatementStart, h.frames]
    have hholds (r : Restriction) : r.holdsWithin (frame :: outer) = r.holdsInside := rfl
    simp only [hstart, hholds, List.isEmpty_cons, Bool.not_false, Bool.or_true, Bool.false_eq_true,
      if_true, if_false]
    grind [Restriction.holdsInside]

end Embeds

theorem octalOffsets_relocate {start : Nat} (hf : ∀ k, f (start + k) = f start + k)
    (parts : List StringPart) : octalOffsets (f start) parts = (octalOffsets start parts).map f := by
  induction parts generalizing start with
  | nil => rfl
  | cons part parts ih =>
    have hlater := @ih (start + Text.byteSize part.text) fun k => by
      rw [Nat.add_assoc, hf, hf, Nat.add_assoc]
    rw [octalOffsets, octalOffsets, ← hf, hlater]
    split <;> rfl

/-- What holds inside functions too is found again at its new offset. -/
theorem carry_of_holds {found : List Finding} (h : ∀ x ∈ found, x.what.holdsWithin outer = true) :
    carry f outer found = found.map (Located.relocate f) := by
  rw [carry, List.filter_eq_self.2 h]

theorem holdsWithin_of_holdsInside {r : Restriction} (h : r.holdsInside = true) :
    r.holdsWithin outer = true := by
  rw [Restriction.holdsWithin, h, Bool.or_true]

theorem carry_one {r : Restriction} (h : r.holdsInside = true) (start : Nat) :
    carry f outer [⟨start, r⟩] = [⟨f start, r⟩] :=
  carry_of_holds fun _ hx => List.mem_singleton.1 hx ▸ holdsWithin_of_holdsInside h

theorem carry_octalOffsets {start start' : Nat} {parts parts' : List StringPart}
    (hoctal : octalOffsets start' parts' = (octalOffsets start parts).map f) :
    (octalOffsets start' parts').map (⟨·, Restriction.octalEscape⟩) =
      carry f outer ((octalOffsets start parts).map (⟨·, .octalEscape⟩)) := by
  rw [hoctal, carry_of_holds, List.map_map, List.map_map]
  · rfl
  · simp only [List.mem_map]
    rintro _ ⟨_, _, rfl⟩
    exact holdsWithin_of_holdsInside rfl

/-- The same lexeme with other elements in its string, if it is one. -/
def Lexeme.withParts (parts : List StringPart) : Lexeme → Lexeme
  | .string _ => .string parts
  | .openString _ => .openString parts
  | lexeme => lexeme

theorem Lexeme.withParts_parts (lexeme : Lexeme) : lexeme.withParts lexeme.parts = lexeme := by
  cases lexeme <;> rfl

/-- A lexeme does the same in an embedded state, also if its string is written with other elements. -/
theorem Embeds.take_withParts (h : Embeds f outer s t) {start : Nat} {rest other : List Char}
    (halike : Alike rest other) (lexeme : Lexeme) {parts : List StringPart}
    (hoctal : octalOffsets (f start + 1) parts = (octalOffsets (start + 1) lexeme.parts).map f)
    (hok : outer = [] ∨ ∃ next, (s.take start lexeme rest).next = .ok next) :
    (t.take (f start) (lexeme.withParts parts) other).findings =
        carry f outer (s.take start lexeme rest).findings ∧
      Carried f outer (s.take start lexeme rest).next
        (t.take (f start) (lexeme.withParts parts) other).next := by
  have hfault (fault : Located Fault)
      (hok : outer = [] ∨ ∃ next : State, Except.error fault = Except.ok next) :
      Carried f outer (.error fault) (.error (fault.relocate f)) :=
    .error (hok.resolve_right (by simp)) fault
  cases lexeme with
  | lineBreak => exact ⟨rfl, .ok h.afterNewline⟩
  | blank | lineComment => exact ⟨rfl, .ok h⟩
  | blockComment multiline =>
    refine ⟨rfl, ?_⟩
    cases multiline
    · exact .ok h
    · exact .ok h.afterNewline
  | htmlComment => exact ⟨(carry_one rfl start).symm, .ok h⟩
  | openComment => exact ⟨rfl, hfault _ hok⟩
  | string parts => exact ⟨carry_octalOffsets hoctal, .ok (h.afterToken _)⟩
  | openString parts => exact ⟨carry_octalOffsets hoctal, hfault _ hok⟩
  | regex => exact ⟨rfl, .ok (h.afterToken _)⟩
  | openRegex => exact ⟨rfl, hfault _ hok⟩
  | template stop => exact h.takeTemplate start stop hok
  | templateTail stop => exact h.takeTail start stop hok
  | opener d => exact ⟨rfl, .ok (h.takeOpener start d)⟩
  | closer d => exact ⟨rfl, h.takeCloser start d hok⟩
  | number legacy =>
    refine ⟨?_, .ok (h.afterToken _)⟩
    cases legacy
    · rfl
    · exact (carry_one rfl start).symm
  | update => exact ⟨rfl, .ok (h.afterToken _)⟩
  | arrow =>
    have hbrace := halike.next '{' (by decide)
    simp only [Lexeme.withParts, State.take, ← hbrace]
    refine ⟨rfl, .ok ?_⟩
    split
    · exact h.afterToken _
    · have harrow : Nests f outer { s with arrowDepths := s.depth :: s.arrowDepths }
          { t with arrowDepths := t.depth :: t.arrowDepths } :=
        { h with arrowDepths := by rw [h.arrowDepths, h.depth, List.map_cons] }
      exact harrow.afterToken _
  | word text =>
    refine ⟨?_, .ok (h.afterWord text)⟩
    simp only [Lexeme.withParts, State.take, h.afterPoint, h.restriction? text halike]
    split
    · rfl
    · cases s.restriction? text rest with
      | none => rfl
      | some r => by_cases hr : r.holdsWithin outer <;> simp [carry, hr, Located.relocate]
  | punctuator c =>
    simp only [Lexeme.withParts, State.take, h.depth]
    refine ⟨rfl, .ok ?_⟩
    split
    · exact (h.endArrows _).afterToken _
    · exact h.afterToken _

/-- A lexeme does the same in an embedded state. -/
theorem Embeds.take (h : Embeds f outer s t) {start : Nat} (hf : ∀ k, f (start + k) = f start + k)
    {rest other : List Char} (halike : Alike rest other) (lexeme : Lexeme)
    (hok : outer = [] ∨ ∃ next, (s.take start lexeme rest).next = .ok next) :
    (t.take (f start) lexeme other).findings =
        carry f outer (s.take start lexeme rest).findings ∧
      Carried f outer (s.take start lexeme rest).next (t.take (f start) lexeme other).next := by
  have hnext (k : Nat) : f (start + 1 + k) = f (start + 1) + k := by
    rw [Nat.add_assoc, hf, hf, Nat.add_assoc]
  have hoctal := octalOffsets_relocate hnext lexeme.parts
  rw [hf] at hoctal
  have htake := h.take_withParts halike lexeme hoctal hok
  rwa [lexeme.withParts_parts] at htake

theorem Nests.alikeAfter (h : Nests f outer s t) {rest other : List Char}
    (halike : AlikeAfter s.previous rest other) : AlikeAfter t.previous rest other := by
  rcases h.previous with heq | ⟨-, heq | heq⟩
  · rwa [heq]
  · rw [heq]
    exact ⟨nofun, nofun⟩
  · rw [heq]
    exact ⟨nofun, nofun⟩

theorem State.afterWord_previous (s : State) (word : String) :
    (s.afterWord word).previous = some (.word word) := by
  rw [State.afterWord]
  split <;> rfl

/-- A lexeme does the same in front of texts that its token cannot tell apart. -/
theorem State.take_congr {start : Nat} {lexeme : Lexeme} {rest other : List Char}
    (halike : ∀ next, (s.take start lexeme rest).next = .ok next → AlikeAfter next.previous rest other) :
    s.take start lexeme other = s.take start lexeme rest := by
  cases lexeme with
  | arrow =>
    have hbrace := (halike _ rfl).next rfl '{' (by decide)
    simp only [State.take, hbrace]
  | word text =>
    have hword := halike _ rfl
    rw [s.afterWord_previous] at hword
    simp only [State.take, s.restriction?_congr hword]
  | _ => rfl

/-- A lexeme does the same in an embedded state, in front of a text that its token cannot tell from the first. -/
theorem Embeds.take_after (h : Embeds f outer s t) {start : Nat} (hf : ∀ k, f (start + k) = f start + k)
    {rest other : List Char} (lexeme : Lexeme)
    (halike : ∀ next, (s.take start lexeme rest).next = .ok next → AlikeAfter next.previous rest other)
    (hok : outer = [] ∨ ∃ next, (s.take start lexeme rest).next = .ok next) :
    (t.take (f start) lexeme other).findings =
        carry f outer (s.take start lexeme rest).findings ∧
      Carried f outer (s.take start lexeme rest).next (t.take (f start) lexeme other).next := by
  have htake := h.take hf (.refl rest) lexeme hok
  have hsame : t.take (f start) lexeme other = t.take (f start) lexeme rest := by
    refine State.take_congr fun next hnext => ?_
    have hcarried := htake.2
    rw [hnext] at hcarried
    generalize (s.take start lexeme rest).next = answer at hcarried halike
    cases hcarried with
    | ok hembeds => exact hembeds.alikeAfter (halike _ rfl)
  rwa [hsame]

end

end ParseGoal.Ecma
