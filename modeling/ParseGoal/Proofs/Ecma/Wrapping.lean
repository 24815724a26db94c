import ParseGoal.Proofs.Ecma.Verdict

/-!
A text as the body of an async function. Inside, declarations and `await` are no longer rejected in
scripts; all else is.
-/
namespace ParseGoal.Ecma

theorem State.restriction?_eq_importMeta {s : State} {word : String} {rest : List Char} :
    s.restriction? word rest = some .importMeta ↔ word = "import" ∧ nextSignificant rest = some '.' := by
  rw [State.restriction?]
  grind

/-- Only a word meets the restriction on `import.meta`. -/
theorem State.filter_importMeta_take (s : State) (start : Nat) (lexeme : Lexeme) (rest : List Char) :
    (s.take start lexeme rest).findings.filter (·.what = .importMeta) =
      if lexeme == .word "import" && !s.afterPoint && nextSignificant rest == some '.' then
        [⟨start, .importMeta⟩]
      else [] := by
  have hoctal (offsets : List Nat) :
      (offsets.map (Located.mk · Restriction.octalEscape)).filter (·.what = .importMeta) = [] := by
    simp
  cases lexeme with
  | string parts | openString parts => exact hoctal _
  | template stop =>
    cases stop with
    | none => rfl
    | some stop => rfl
  | templateTail stop =>
    rw [State.take, State.takeTail]
    split
    · rfl
    · cases stop <;> rfl
  | number legacy => cases legacy <;> rfl
  | word text =>
    have hmeta : s.restriction? text rest = some .importMeta ↔
        text = "import" ∧ nextSignificant rest = some '.' := State.restriction?_eq_importMeta
    simp only [State.take]
    cases s.afterPoint with
    | true => simp
    | false =>
      by_cases hr : s.restriction? text rest = some .importMeta
      · obtain ⟨rfl, hnext⟩ := hmeta.1 hr
        simp [hr, hnext]
      · have hnot : ¬ (Lexeme.word text == .word "import" && !false &&
            nextSignificant rest == some '.') = true := by
          simpa using fun htext hnext => hr (hmeta.2 ⟨htext, hnext⟩)
        rw [if_neg hnot]
        cases hs : s.restriction? text rest with
        | none => rfl
        | some r =>
          have hne : r ≠ .importMeta := fun heq => hr (heq ▸ hs)
          simp [hne]
  | _ => rfl

namespace Place

/-- At the word `import`, not after a point, with a point next. -/
def isImportMeta (p : Place) : Bool :=
  match p.rest with
  | [] => false
  | c :: rest =>
    let piece := cut p.state.context c rest
    piece.lexeme == .word "import" && !p.state.afterPoint && nextSignificant piece.rest == some '.'

variable {p q : Place} {found : List Finding}

theorem Step.filter_importMeta (h : Step p found q) : found.filter (·.what = .importMeta) =
    if p.isImportMeta then [⟨p.offset, .importMeta⟩] else [] := by
  obtain ⟨rfl, htake⟩ := h
  rename_i s next offset c rest
  have hfilter := s.filter_importMeta_take offset (cut s.context c rest).lexeme
    (cut s.context c rest).rest
  rw [htake] at hfilter
  exact hfilter

/--
The first restriction on `import.meta` that a whole scan runs into lies at the first word that it
comes to and that is about `import.meta`.
-/
theorem Reaches.importMeta (h : Reaches p found q) (hend : q.rest = []) :
    ((found.filter (·.what = .importMeta)).head? = none ∧ ∀ r, Visits p r → r.isImportMeta = false) ∨
      ∃ r, Visits p r ∧ r.isImportMeta ∧ (∀ r', Visits p r' → r'.isImportMeta → r.offset ≤ r'.offset) ∧
        (found.filter (·.what = .importMeta)).head? = some ⟨r.offset, .importMeta⟩ := by
  induction h with
  | refl p =>
    refine .inl ⟨rfl, fun r hr => ?_⟩
    rw [hr.eq_of_nil hend, isImportMeta, hend]
  | @step p q' q found later hstep hreaches ih =>
    rw [List.filter_append, hstep.filter_importMeta]
    by_cases hp : p.isImportMeta
    · rw [if_pos hp]
      exact .inr ⟨p, .refl p, hp, fun r' hr' _ => hr'.offset_le, rfl⟩
    · rw [if_neg hp, List.nil_append]
      obtain ⟨hnone, hall⟩ | ⟨r, hr, hmeta, hfirst, hhead⟩ := ih hend
      · refine .inl ⟨hnone, fun r hr => ?_⟩
        rcases hr.of_step hstep with rfl | hr
        · exact Bool.eq_false_iff.2 hp
        · exact hall r hr
      · refine .inr ⟨r, hr.step hstep, hmeta, fun r' hr' hmeta' => ?_, hhead⟩
        rcases hr'.of_step hstep with rfl | hr'
        · exact absurd hmeta' hp
        · exact hfirst r' hr' hmeta'

end Place

/-! The scan of a text within a function. -/

/-- The text as the body of an async function. -/
def inAsyncFunction (text : List Char) : List Char :=
  "async function f() \x7b\n".toList ++ text ++ "\n\x7d".toList

theorem inAsyncFunction_eq (text : List Char) : inAsyncFunction text =
    "async function f() \x7b\n".toList ++ (text ++ "\n\x7d".toList) := List.append_assoc ..

/-- The brace that opens the body. -/
def bodyFrame : Frame := ⟨.functionBody, 19⟩

/-- Where the body starts. -/
def bodyStart : State :=
  { frames := [bodyFrame], previous := some (.punctuator '{'), newlineBefore := true, lineStart := true }

theorem Place.reaches_bodyStart (more : List Char) :
    Reaches (start ("async function f() \x7b\n".toList ++ more)) [] ⟨bodyStart, 21, more⟩ := by
  have hstep {s next : State} {offset : Nat} {c : Char} {rest : List Char} {piece : Cut}
      (hcut : cut s.context c rest = piece) (htake : s.take offset piece.lexeme piece.rest = ⟨[], .ok next⟩)
      (h : Reaches ⟨next, offset + Text.byteSize piece.text, piece.rest⟩ [] ⟨bodyStart, 21, more⟩) :
      Reaches ⟨s, offset, c :: rest⟩ [] ⟨bodyStart, 21, more⟩ := .step (.intro hcut htake) h
  have hopening : "async function f() \x7b\n".toList = ['a', 's', 'y', 'n', 'c', ' ', 'f', 'u', 'n', 'c',
      't', 'i', 'o', 'n', ' ', 'f', '(', ')', ' ', '\x7b', '\n'] := by simp
  rw [hopening]
  -- Five lexemes up to the name, and five more: parentheses, blank, brace and the end of the line.
  refine hstep rfl rfl (hstep rfl rfl (hstep rfl rfl (hstep rfl rfl (hstep rfl rfl ?_))))
  refine hstep rfl rfl (hstep rfl rfl (hstep rfl rfl (hstep rfl rfl (hstep rfl rfl ?_))))
  exact .refl _

theorem embeds_bodyStart : Embeds (· + 21) [bodyFrame] {} bodyStart where
  isBody := by simp [bodyFrame]
  frames := rfl
  previous := .inr ⟨rfl, .inr rfl⟩
  lineStart := rfl
  controlNext := rfl
  classDepth := rfl
  arrowDepths := rfl
  atStatementStart := nofun

theorem junction_bodyEnd : Junction [] "\n\x7d".toList "\n\x7d".toList 0 :=
  .of_newline (.of_nextSignificant (c := '\x7d') rfl (by decide) rfl)

/-- The last brace closes the body. -/
theorem Place.scan_bodyEnd {s : State} (hframes : s.frames = [bodyFrame]) (offset : Nat) :
    scan ⟨s, offset, "\n\x7d".toList⟩ = ⟨[], none⟩ := by
  obtain ⟨frames, previous, newlineBefore, lineStart, controlNext, classDepth, arrowDepths⟩ := s
  obtain rfl : frames = [bodyFrame] := hframes
  have hline : Step ⟨⟨[bodyFrame], previous, newlineBefore, lineStart, controlNext, classDepth,
      arrowDepths⟩, offset, "\n\x7d".toList⟩ [] ⟨⟨[bodyFrame], previous, true, true, controlNext, classDepth,
      arrowDepths⟩, offset + 1, ['}']⟩ := .intro rfl rfl
  have hbrace : Step ⟨⟨[bodyFrame], previous, true, true, controlNext, classDepth, arrowDepths⟩,
      offset + 1, ['}']⟩ [] ⟨⟨[], some (.close .curly), false, false, false, classDepth,
        arrowDepths.filter (· < 1)⟩, offset + 2, []⟩ := .intro rfl rfl
  rw [hline.scan, hbrace.scan, scan, scanFrom]
  rfl

/-- Within a function, the scan runs into the same, except for what functions allow. -/
theorem scan_inAsyncFunction {x : List Char} (hclosed : (scan x).fault = none)
    (hplain : ¬ ['#', '!'] <+: x) :
    scan (inAsyncFunction x) = ⟨carry (· + 21) [bodyFrame] (scan x).findings, none⟩ := by
  have hx : Place.scan ⟨{}, 0, x⟩ = scan x := by rw [← Place.start_of_plain hplain, Place.scan_start]
  obtain ⟨last, hreaches, hframes⟩ := Place.exists_reaches_end ⟨{}, 0, x⟩ (hx ▸ hclosed)
  rw [hx] at hreaches
  obtain ⟨last', hembeds, hreaches'⟩ := hreaches.splice embeds_bodyStart (fun k => by omega)
    junction_bodyEnd (List.append_nil x).symm
  have hframes' : last'.frames = [bodyFrame] := by
    rw [hembeds.frames, hframes]
    rfl
  have hwhole := ((Place.reaches_bodyStart _).trans hreaches').scan
  rw [Place.scan_bodyEnd hframes', Place.scan_start, ← inAsyncFunction_eq] at hwhole
  exact hwhole.trans (congrArg (Scan.mk · none) (List.append_nil _))

theorem findingsOf_module_inAsyncFunction {x : List Char} (hclosed : (scan x).fault = none)
    (hplain : ¬ ['#', '!'] <+: x) :
    (scan (inAsyncFunction x)).findingsOf .module =
      ((scan x).findingsOf .module).map (Located.relocate (· + 21)) := by
  have hfilter (r : Restriction) : (decide (r.goal = .module) && r.holdsWithin [bodyFrame]) =
      decide (r.goal = .module) := by
    cases r <;> rfl
  rw [scan_inAsyncFunction hclosed hplain, Scan.findingsOf, Scan.findingsOf, carry, List.filter_map,
    List.filter_filter]
  congr 1
  exact List.filter_congr fun x _ => hfilter x.what

theorem findingsOf_script_inAsyncFunction {x : List Char} (hclosed : (scan x).fault = none)
    (hplain : ¬ ['#', '!'] <+: x) :
    (scan (inAsyncFunction x)).findingsOf .script =
      ((scan x).findings.filter (·.what = .importMeta)).map (Located.relocate (· + 21)) := by
  have hfilter (r : Restriction) : (decide (r.goal = .script) && r.holdsWithin [bodyFrame]) =
      decide (r = .importMeta) := by
    cases r <;> rfl
  rw [scan_inAsyncFunction hclosed hplain, Scan.findingsOf, carry, List.filter_map, List.filter_filter]
  congr 1
  exact List.filter_congr fun x _ => hfilter x.what

/-- A place of the text, within the function. -/
theorem ofOffset_inAsyncFunction {x : List Char} {offset : Nat} (h : offset ≤ Text.byteSize x) :
    Position.ofOffset (inAsyncFunction x) (offset + 21) = (Position.ofOffset x offset).below 1 21 := by
  have hline : "async function f() \x7b\n".toList = "async function f() \x7b".toList ++ ['\n'] := by
    simp
  have hcount : "async function f() \x7b".toList.count '\n' = 0 := by decide
  have hsize : Text.byteSize ("async function f() \x7b".toList ++ ['\n']) = 21 := by decide
  have hlines := Position.ofOffset_lines "async function f() \x7b".toList (x ++ "\n\x7d".toList) offset
  rw [hcount, hsize] at hlines
  rw [inAsyncFunction_eq, ← Position.ofOffset_append h "\n\x7d".toList, hline, List.append_assoc]
  exact hlines

/-- As a module, the text within the function passes or fails as it does alone, one line further down. -/
theorem judge_module_inAsyncFunction {x : List Char} (hclosed : (scan x).fault = none)
    (hplain : ¬ ['#', '!'] <+: x) :
    judge (inAsyncFunction x) .module = (judge x .module).mapError fun failure =>
      ⟨failure.position.below 1 21, failure.reason⟩ := by
  have hfault := congrArg Scan.fault (scan_inAsyncFunction hclosed hplain)
  have hlt := offset_lt_of_scan x .module
  rw [judge, judge, Scan.violation?_of_closed hfault,
    findingsOf_module_inAsyncFunction hclosed hplain, List.head?_map]
  rw [Scan.violation?_of_closed hclosed] at hlt ⊢
  cases hr : ((scan x).findingsOf .module).head? with
  | none => rfl
  | some r =>
    have hr : r.offset < Text.byteSize x := hlt ⟨r.offset, .restriction r.what⟩ (hr ▸ rfl)
    simp only [Option.map_some, Located.relocate, ofOffset_inAsyncFunction hr.le]
    rfl

/-- As a script, the text within the function fails at its first `import.meta` only. -/
theorem judge_script_inAsyncFunction {x : List Char} (hclosed : (scan x).fault = none)
    (hplain : ¬ ['#', '!'] <+: x) :
    (∀ p, Place.Visits (.start x) p → p.isImportMeta = false) ∧
        judge (inAsyncFunction x) .script = .ok () ∨
      ∃ p, Place.Visits (.start x) p ∧ p.isImportMeta = true ∧
        (∀ q, Place.Visits (.start x) q → q.isImportMeta = true → p.offset ≤ q.offset) ∧
        judge (inAsyncFunction x) .script =
          .error ⟨(Position.ofOffset x p.offset).below 1 21, Restriction.importMeta.message⟩ := by
  have hfault := congrArg Scan.fault (scan_inAsyncFunction hclosed hplain)
  obtain ⟨last, hreaches, -⟩ := Place.exists_reaches_end (.start x) hclosed
  rw [Place.scan_start] at hreaches
  rw [judge, Scan.violation?_of_closed hfault, findingsOf_script_inAsyncFunction hclosed hplain,
    List.head?_map]
  obtain ⟨hnone, hall⟩ | ⟨p, hp, hmeta, hfirst, hhead⟩ := hreaches.importMeta rfl
  · rw [hnone]
    exact .inl ⟨hall, rfl⟩
  · rw [hhead]
    simp only [Option.map_some, Located.relocate, ofOffset_inAsyncFunction hp.offset_le_byteSize]
    exact .inr ⟨p, hp, hmeta, hfirst, rfl⟩

/--
A text as the body of an async function has no fault. As a module it passes or fails as it does
alone; as a script it fails at the first word that is about `import.meta`, and passes without one.
-/
theorem attempt_inAsyncFunction {x : List Char} (hclosed : (scan x).fault = none)
    (hplain : ¬ Utf8.ofString "#!" <+: Utf8.encode x) :
    let wrapped := Utf8.ofString "async function f() \x7b\n" ++ Utf8.encode x ++ Utf8.ofString "\n\x7d"
    (wrapped = Utf8.encode (inAsyncFunction x) ∧ (scan (inAsyncFunction x)).fault = none) ∧
      probe.attempt wrapped .module =
        ((probe.attempt (Utf8.encode x) .module : Verdict).mapError fun failure =>
          ⟨failure.position.below 1 21, failure.reason⟩) ∧
      ((∀ p, Place.Visits (.start x) p → p.isImportMeta = false) ∧
          probe.attempt wrapped .script = .ok () ∨
        ∃ p, Place.Visits (.start x) p ∧ p.isImportMeta = true ∧
          (∀ q, Place.Visits (.start x) q → q.isImportMeta = true → p.offset ≤ q.offset) ∧
          probe.attempt wrapped .script =
            .error ⟨(Position.ofOffset x p.offset).below 1 21, Restriction.importMeta.message⟩) := by
  intro wrapped
  have hplain' : ¬ ['#', '!'] <+: x := fun h => hplain (Utf8.prefix_encode h)
  have hwrapped : wrapped = Utf8.encode (inAsyncFunction x) := by
    rw [inAsyncFunction_eq, Utf8.encode_append, Utf8.encode_append]
    exact List.append_assoc ..
  rw [hwrapped, probe_encode, probe_encode, probe_encode]
  exact ⟨⟨rfl, congrArg Scan.fault (scan_inAsyncFunction hclosed hplain')⟩,
    judge_module_inAsyncFunction hclosed hplain', judge_script_inAsyncFunction hclosed hplain'⟩

/-- The function allows `await`, but not `import.meta` before it. -/
theorem attempt_inAsyncFunction_of_importMeta :
    let wrapped := Utf8.ofString "async function f() \x7b\n" ++ Utf8.ofString "import.meta; await x" ++
      Utf8.ofString "\n\x7d"
    probe.attempt wrapped .module = .ok () ∧
      probe.attempt wrapped .script =
        .error ⟨⟨2, 1, 21⟩, "'import.meta' is only valid in module code"⟩ := by
  intro wrapped
  have hclosed : (scan "import.meta; await x".toList).fault = none := by decide +kernel
  have hpasses : (scan "import.meta; await x".toList).violation? .module = none := by decide +kernel
  have hstart : (Place.start "import.meta; await x".toList).isImportMeta = true := by decide +kernel
  obtain ⟨-, hmodule, hscript⟩ := attempt_inAsyncFunction hclosed (by decide)
  constructor
  · rw [probe_encode, judge, hpasses] at hmodule
    exact hmodule
  · obtain ⟨hnone, -⟩ | ⟨p, -, -, hfirst, hfails⟩ := hscript
    · exact absurd (hnone _ (.refl _)) (by rw [hstart]; decide)
    · have hoffset : p.offset = 0 := Nat.le_zero.1 (hfirst _ (.refl _) hstart)
      rw [hoffset] at hfails
      exact hfails

end ParseGoal.Ecma
