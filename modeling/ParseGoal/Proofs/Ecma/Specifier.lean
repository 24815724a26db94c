import ParseGoal.Proofs.Ecma.Heritage

/-!
Names in the braces of imports and exports. Any word may stand there on the outer side of `as`, where it names no
binding. To a scan the braces are a block, and so the words that strict code reserves count as bindings; no other
word means anything there.
-/
namespace ParseGoal.Ecma

/-- One thing under two names. -/
def specifier (x y : String) : List Char := x.toList ++ (" as ".toList ++ y.toList)

/-- A list of such pairs, as it stands between braces. -/
def specifiers : List (String × String) → List Char
  | [] => []
  | [(x, y)] => specifier x y
  | (x, y) :: more => specifier x y ++ (", ".toList ++ specifiers more)

/-- A word with such a list behind it. -/
def clause (word : String) (pairs : List (String × String)) (rest : List Char) : List Char :=
  word.toList ++ (" \x7b ".toList ++ (specifiers pairs ++ (" \x7d".toList ++ rest)))

/-- An import under names of its own. -/
def importing (pairs : List (String × String)) : List Char := clause "import" pairs " from \"m\";".toList

/-- An export of what has been imported, under the names that it was imported by. -/
def exporting (pairs : List (String × String)) : List Char := clause "export" (pairs.map Prod.swap) [';']

theorem clause_append (word : String) (pairs : List (String × String)) (rest more : List Char) :
    clause word pairs rest ++ more = clause word pairs (rest ++ more) := by
  simp only [clause, List.append_assoc]

/-! What modules reject on the way. -/

/-- From one place to another, with what modules reject between them. -/
def Place.Passes (p : Place) (rejected : List Finding) (q : Place) : Prop :=
  ∃ found, Reaches p found q ∧ found.filter (·.what.goal = .module) = rejected

namespace Place.Passes

variable {p q r : Place} {found later : List Finding}

theorem refl (p : Place) : Passes p [] p := ⟨[], .refl p, rfl⟩

theorem of_reaches (h : Reaches p [] q) : Passes p [] q := ⟨[], h, rfl⟩

theorem trans (h : Passes p found q) (h' : Passes q later r) : Passes p (found ++ later) r := by
  obtain ⟨earlier, hreaches, rfl⟩ := h
  obtain ⟨behind, hreaches', rfl⟩ := h'
  exact ⟨_, hreaches.trans hreaches', List.filter_append ..⟩

end Place.Passes

/-- A word that strict code reserves, where it is taken for a binding. -/
def reservedAt (offset : Nat) (word : String) : List Finding :=
  if strictWords.contains word then [⟨offset, .reservedWord word⟩] else []

/-- The names of a list that strict code reserves. -/
def reservedIn (offset : Nat) : List (String × String) → List Finding
  | [] => []
  | (x, y) :: more =>
    reservedAt offset x ++ (reservedAt (offset + Text.byteSize x.toList + 4) y ++
      reservedIn (offset + Text.byteSize (specifier x y) + 2) more)

/-! Inside the braces. -/

/-- Inside braces that are the only open bracket. -/
structure State.InBraces (start : Nat) (s : State) : Prop where
  frames : s.frames = [⟨.block, start⟩]
  afterPoint : s.afterPoint = false
  classDepth : s.classDepth ≠ some 0

/-- Outside all brackets, where no class waits for its body. -/
structure State.IsOutside (s : State) : Prop where
  frames : s.frames = []
  classDepth : s.classDepth ≠ some 0

/-- What a name may stand in front of. -/
structure EndsName (rest : List Char) : Prop where
  stops : ∀ c ∈ rest.head?, isWordPart c = false
  next : ∃ c ∉ ['(', ':'], nextSignificant rest = some c

theorem EndsName.of_visible {c : Char} (hpart : isWordPart c = false)
    (hblank : ¬ (c = '\n' ∨ isInlineBlank c = true)) (hslash : c ≠ '/') (hc : c ∉ ['(', ':'])
    (rest : List Char) : EndsName (c :: rest) where
  stops := by
    rintro d ⟨⟩
    exact hpart
  next := ⟨c, hc, nextSignificant_visible hblank hslash rest⟩

theorem EndsName.blank {c : Char} (hblank : ¬ (c = '\n' ∨ isInlineBlank c = true)) (hslash : c ≠ '/')
    (hc : c ∉ ['(', ':']) (rest : List Char) : EndsName (' ' :: c :: rest) where
  stops := by
    rintro d ⟨⟩
    decide
  next := ⟨c, hc, (nextSignificant_blank (.inr rfl) _).trans (nextSignificant_visible hblank hslash rest)⟩

namespace State

variable {s : State} {start : Nat} {w : String} {rest : List Char}

theorem InBraces.afterToken (h : s.InBraces start) {token : Token} (htoken : token ≠ .punctuator '.') :
    (s.afterToken token).InBraces start where
  frames := h.frames
  afterPoint := by simpa [State.afterPoint, State.afterToken] using htoken
  classDepth := h.classDepth

theorem InBraces.afterWord (h : s.InBraces start) (w : String) : (s.afterWord w).InBraces start where
  frames := (s.afterWord_frames w).trans h.frames
  afterPoint := by simp [State.afterPoint, s.afterWord_previous]
  classDepth := by
    have hdepth : s.depth = 1 := by rw [depth, h.frames]; rfl
    rw [State.afterWord, if_neg (Bool.eq_false_iff.1 h.afterPoint), hdepth]
    dsimp only
    split
    · simp
    · exact h.classDepth

theorem InBraces.afterComma (h : s.InBraces start) :
    ((s.endArrows s.depth).afterToken (.punctuator ',')).InBraces start :=
  InBraces.afterToken (s := s.endArrows s.depth) ⟨h.frames, h.afterPoint, h.classDepth⟩ (by decide)

theorem IsOutside.afterWord (h : s.IsOutside) (hw : w ≠ "class") : (s.afterWord w).IsOutside where
  frames := (s.afterWord_frames w).trans h.frames
  classDepth := by
    rw [State.afterWord, if_neg hw]
    split <;> exact h.classDepth

/-- Of all words, only those that strict code reserves mean something to a module there. -/
theorem InBraces.filter_restriction? (h : s.InBraces start) (hvar : s.previous ≠ some (.word "var"))
    (hfunction : s.previous ≠ some (.word "function")) (hrest : EndsName rest) (offset : Nat) (w : String) :
    ((if s.afterPoint then none else s.restriction? w rest).toList.map (Located.mk offset)).filter
      (·.what.goal = .module) = reservedAt offset w := by
  obtain ⟨c, hc, hnext⟩ := hrest.next
  simp only [List.mem_cons, List.not_mem_nil, or_false, not_or] at hc
  have hbinding : s.namesBinding rest = true := by simp [namesBinding, hnext, h.frames, hc]
  have hkeywords : ∀ word ∈ ["import", "export", "with", "await", "let"], strictWords.contains word = false := by
    decide
  rw [h.afterPoint, if_neg Bool.false_ne_true, restriction?, hnext, hbinding]
  simp only [Option.some.injEq, hc, if_false, and_true, hvar, hfunction, or_self]
  by_cases hkeyword : w ∈ ["import", "export", "with", "await", "let"]
  · have hnone : reservedAt offset w = [] := by
      rw [reservedAt, hkeywords w hkeyword]
      rfl
    simp only [List.mem_cons, List.not_mem_nil, or_false] at hkeyword
    rw [hnone]
    rcases hkeyword with rfl | rfl | rfl | rfl | rfl <;> simp only [reduceIte, String.reduceEq] <;> repeat' split
    all_goals rfl
  · simp only [List.mem_cons, List.not_mem_nil, or_false, not_or] at hkeyword
    obtain ⟨himport, hexport, hwith, hawait, hlet⟩ := hkeyword
    rw [if_neg himport, if_neg hexport, if_neg hwith, if_neg hawait, if_neg hlet, reservedAt]
    split <;> rfl

end State

namespace Place

variable {s : State} {start : Nat} {x y w : String} {rest : List Char}

theorem passes_name (h : s.InBraces start) (hvar : s.previous ≠ some (.word "var"))
    (hfunction : s.previous ≠ some (.word "function")) (hw : isWord w = true) (hrest : EndsName rest)
    (offset : Nat) : Passes ⟨s, offset, w.toList ++ rest⟩ (reservedAt offset w)
      ⟨s.afterWord w, offset + Text.byteSize w.toList, rest⟩ :=
  ⟨_, .single (step_of_isWord hw hrest.stops s offset),
    h.filter_restriction? hvar hfunction hrest offset w⟩

/-- Two names, the first of them behind a sign. -/
theorem exists_passes_specifier (h : s.InBraces start) {c : Char} (hprevious : s.previous = some (.punctuator c))
    (hx : isWord x = true) (hy : isWord y = true) (hrest : EndsName rest) (offset : Nat) :
    ∃ next : State, next.InBraces start ∧
      Passes ⟨s, offset, specifier x y ++ rest⟩
        (reservedAt offset x ++ reservedAt (offset + Text.byteSize x.toList + 4) y)
        ⟨next, offset + Text.byteSize (specifier x y), rest⟩ := by
  have hsize : Text.byteSize (specifier x y) = Text.byteSize x.toList + (4 + Text.byteSize y.toList) := by
    rw [specifier, Text.byteSize_append, Text.byteSize_append]
    rfl
  have htext : specifier x y ++ rest = x.toList ++ (" as ".toList ++ (y.toList ++ rest)) := by
    simp [specifier]
  let between := (s.afterWord x).afterToken (.word "as")
  have hbetween : between.InBraces start := (h.afterWord x).afterToken (by decide)
  have hfirst := passes_name h (by simp [hprevious]) (by simp [hprevious]) hx
    (.blank (c := 'a') (by decide) (by decide) (by decide) ('s' :: ' ' :: (y.toList ++ rest))) offset
  have hblank : ∀ d ∈ (' ' :: (y.toList ++ rest)).head?, isWordPart d = false := by
    rintro d ⟨⟩
    decide
  have has : Reaches ⟨s.afterWord x, offset + Text.byteSize x.toList, " as ".toList ++ (y.toList ++ rest)⟩ []
      ⟨between, offset + Text.byteSize x.toList + 4, y.toList ++ rest⟩ :=
    .step (step_blank ..) (.step (step_unmarked (w := "as") _ (by decide) (by decide) hblank _)
      (.single (step_blank ..)))
  have hsecond := passes_name hbetween (by simp [between, State.afterToken]) (by simp [between, State.afterToken])
    hy hrest (offset + Text.byteSize x.toList + 4)
  refine ⟨between.afterWord y, hbetween.afterWord y, ?_⟩
  have hwhole := hfirst.trans ((Passes.of_reaches has).trans hsecond)
  rw [List.nil_append] at hwhole
  rw [htext, hsize, ← Nat.add_assoc, ← Nat.add_assoc]
  exact hwhole

/-- All names between the braces. -/
theorem exists_passes_specifiers {pairs : List (String × String)}
    (hpairs : ∀ p ∈ pairs, isWord p.1 = true ∧ isWord p.2 = true) (h : s.InBraces start) {c : Char}
    (hprevious : s.previous = some (.punctuator c)) (hrest : EndsName rest) (offset : Nat) : ∃ next : State, next.InBraces start ∧
      Passes ⟨s, offset, specifiers pairs ++ rest⟩ (reservedIn offset pairs)
        ⟨next, offset + Text.byteSize (specifiers pairs), rest⟩ := by
  fun_induction specifiers pairs generalizing s offset c with
  | case1 => exact ⟨s, h, .refl _⟩
  | case2 x y =>
    obtain ⟨hx, hy⟩ := hpairs (x, y) List.mem_cons_self
    obtain ⟨next, hnext, hpasses⟩ := exists_passes_specifier h hprevious hx hy hrest offset
    refine ⟨next, hnext, ?_⟩
    simpa [reservedIn] using hpasses
  | case3 x y more hmore ih =>
    obtain ⟨hx, hy⟩ := hpairs (x, y) List.mem_cons_self
    have hcomma : EndsName (',' :: ' ' :: (specifiers more ++ rest)) :=
      .of_visible (by decide) (by decide) (by decide) (by decide) _
    obtain ⟨between, hbetween, hfirst⟩ := exists_passes_specifier h hprevious hx hy hcomma offset
    have hsign : Step ⟨between, offset + Text.byteSize (specifier x y), ',' :: ' ' :: (specifiers more ++ rest)⟩ []
        ⟨(between.endArrows between.depth).afterToken (.punctuator ','),
          offset + Text.byteSize (specifier x y) + 1, ' ' :: (specifiers more ++ rest)⟩ := .intro rfl rfl
    obtain ⟨next, hnext, hlater⟩ := ih (fun p hp => hpairs p (List.mem_cons_of_mem _ hp)) hbetween.afterComma rfl
      (offset + Text.byteSize (specifier x y) + 2)
    have hsize : Text.byteSize (specifier x y ++ (", ".toList ++ specifiers more)) =
        Text.byteSize (specifier x y) + (2 + Text.byteSize (specifiers more)) := by
      rw [Text.byteSize_append, Text.byteSize_append]
      rfl
    have hwhole := hfirst.trans ((Passes.of_reaches (.step hsign (.single (step_blank ..)))).trans hlater)
    rw [List.nil_append, List.append_assoc] at hwhole
    refine ⟨next, hnext, ?_⟩
    rw [List.append_assoc, List.append_assoc, hsize, ← Nat.add_assoc, ← Nat.add_assoc]
    exact hwhole

/-- Behind a word outside all brackets, a brace opens a block. -/
theorem step_block (h : s.IsOutside) (hprevious : s.previous = some (.word w)) (offset : Nat)
    (rest : List Char) : Step ⟨s, offset, '\x7b' :: rest⟩ []
      ⟨(s.push .block offset).afterToken (.punctuator '\x7b'), offset + 1, rest⟩ := by
  have hdepth : s.depth = 0 := by rw [State.depth, h.frames]; rfl
  have henclosure : s.enclosureOf .curly = .block := by
    simp [State.enclosureOf, hdepth, h.classDepth, hprevious]
  have hopen : s.takeOpener offset .curly = (s.push .block offset).afterToken (.punctuator '\x7b') := by
    rw [State.takeOpener, henclosure]
    rfl
  rw [← hopen]
  exact .intro rfl rfl

section

variable {pairs : List (String × String)} (hpairs : ∀ p ∈ pairs, isWord p.1 = true ∧ isWord p.2 = true)

include hpairs

/-- From the word in front of the braces to their end. -/
theorem exists_passes_braces (h : s.IsOutside) (hprevious : s.previous = some (.word w)) (offset : Nat)
    (rest : List Char) : ∃ (next : State) (offset' : Nat), next.IsOutside ∧
      next.previous = some (.close .curly) ∧
      Passes ⟨s, offset, " \x7b ".toList ++ (specifiers pairs ++ (" \x7d".toList ++ rest))⟩
        (reservedIn (offset + 3) pairs) ⟨next, offset', rest⟩ := by
  let inside := (s.push .block (offset + 1)).afterToken (.punctuator '\x7b')
  have hinside : inside.InBraces (offset + 1) := ⟨congrArg _ h.frames, rfl, h.classDepth⟩
  have hopen : Reaches ⟨s, offset, " \x7b ".toList ++ (specifiers pairs ++ (" \x7d".toList ++ rest))⟩ []
      ⟨inside, offset + 3, specifiers pairs ++ (" \x7d".toList ++ rest)⟩ :=
    .step (step_blank ..) (.step (step_block h hprevious ..) (.single (step_blank ..)))
  have hend : EndsName (" \x7d".toList ++ rest) := .blank (by decide) (by decide) (by decide) rest
  obtain ⟨last, hlast, hnames⟩ := exists_passes_specifiers hpairs hinside rfl hend (offset + 3)
  obtain ⟨next, hnext, hdepth, hprevious, hclose⟩ := exists_step_close hlast.frames nofun
    (offset + 3 + Text.byteSize (specifiers pairs) + 1) rest
  refine ⟨next, offset + 3 + Text.byteSize (specifiers pairs) + 2, ⟨hnext, hdepth ▸ hlast.classDepth⟩,
    hprevious nofun, ?_⟩
  have hwhole := (Passes.of_reaches hopen).trans (hnames.trans
    (Passes.of_reaches (.step (step_blank ..) (.single hclose))))
  rwa [List.nil_append, List.append_nil] at hwhole

/-- An import, from behind its first word on. -/
theorem exists_passes_import (h : s.IsOutside) (hprevious : s.previous = some (.word w)) (offset : Nat)
    (rest : List Char) : ∃ (next : State) (offset' : Nat), next.IsOutside ∧
      next.previous = some (.punctuator ';') ∧
      Passes ⟨s, offset, " \x7b ".toList ++ (specifiers pairs ++ (" \x7d".toList ++ (" from \"m\";".toList ++ rest)))⟩
        (reservedIn (offset + 3) pairs) ⟨next, offset', rest⟩ := by
  obtain ⟨closed, offset', hclosed, -, hbraces⟩ :=
    exists_passes_braces hpairs h hprevious offset (" from \"m\";".toList ++ rest)
  have hblank : ∀ d ∈ (" \"m\";".toList ++ rest).head?, isWordPart d = false := by
    rintro d ⟨⟩
    decide
  let named := closed.afterToken (.word "from")
  have hname : Step ⟨closed, offset' + 1, "from".toList ++ (" \"m\";".toList ++ rest)⟩ []
      ⟨named, offset' + 5, " \"m\";".toList ++ rest⟩ := step_unmarked _ (by decide) (by decide) hblank _
  let behind := named.afterToken .literal
  have hliteral : Step ⟨named, offset' + 6, '"' :: 'm' :: '"' :: ';' :: rest⟩ []
      ⟨behind, offset' + 9, ';' :: rest⟩ := .intro rfl rfl
  have hend : Step ⟨behind, offset' + 9, ';' :: rest⟩ []
      ⟨(behind.endArrows behind.depth).afterToken (.punctuator ';'), offset' + 10, rest⟩ := .intro rfl rfl
  have hsource := Passes.of_reaches <| .step (step_blank closed offset' _) <| .step hname <|
    .step (step_blank ..) <| .step hliteral (.single hend)
  have hwhole := hbraces.trans hsource
  rw [List.append_nil] at hwhole
  exact ⟨(behind.endArrows behind.depth).afterToken (.punctuator ';'), offset' + 10,
    ⟨hclosed.frames, hclosed.classDepth⟩, rfl, hwhole⟩

/-- An export, from behind its first word on. -/
theorem exists_passes_export (h : s.IsOutside) (hprevious : s.previous = some (.word w)) (offset : Nat) :
    ∃ (last : State) (offset' : Nat), last.frames = [] ∧
      Passes ⟨s, offset, " \x7b ".toList ++ (specifiers pairs ++ (" \x7d".toList ++ [';']))⟩
        (reservedIn (offset + 3) pairs) ⟨last, offset', []⟩ := by
  obtain ⟨closed, offset', hclosed, -, hbraces⟩ := exists_passes_braces hpairs h hprevious offset [';']
  have hend : Step ⟨closed, offset', [';']⟩ []
      ⟨(closed.endArrows closed.depth).afterToken (.punctuator ';'), offset' + 1, []⟩ := .intro rfl rfl
  have hwhole := hbraces.trans (Passes.of_reaches (.single hend))
  rw [List.append_nil] at hwhole
  exact ⟨(closed.endArrows closed.depth).afterToken (.punctuator ';'), offset' + 1, hclosed.frames, hwhole⟩

end

/-- Blanks and line breaks leave all brackets and the last token as they are. -/
theorem exists_reaches_gap {gap : List Char} (hgap : ∀ c ∈ gap, c = '\n' ∨ isInlineBlank c = true) (h : s.IsOutside)
    (offset : Nat) (rest : List Char) : ∃ (next : State) (offset' : Nat), next.IsOutside ∧
      next.previous = s.previous ∧ Reaches ⟨s, offset, gap ++ rest⟩ [] ⟨next, offset', rest⟩ := by
  induction gap generalizing s offset with
  | nil => exact ⟨s, offset, h, rfl, .refl _⟩
  | cons c gap ih =>
    have hlater : ∀ d ∈ gap, d = '\n' ∨ isInlineBlank d = true := fun d hd => hgap d (List.mem_cons_of_mem _ hd)
    by_cases hline : c = '\n'
    · subst hline
      have hbreak : Step ⟨s, offset, '\n' :: (gap ++ rest)⟩ [] ⟨s.afterNewline, offset + 1, gap ++ rest⟩ :=
        .intro rfl rfl
      obtain ⟨next, offset', hnext, hprevious, hreaches⟩ :=
        ih hlater (s := s.afterNewline) ⟨h.frames, h.classDepth⟩ (offset + 1)
      exact ⟨next, offset', hnext, hprevious, .step hbreak hreaches⟩
    · have hblank := (hgap c List.mem_cons_self).resolve_left hline
      have hcut : cut s.context c (gap ++ rest) = ⟨.blank, [c], gap ++ rest⟩ := by
        rw [cut, if_neg hline, if_pos hblank]
      obtain ⟨next, offset', hnext, hprevious, hreaches⟩ := ih hlater h (offset + Text.byteSize [c])
      exact ⟨next, offset', hnext, hprevious, .step (.intro hcut rfl) hreaches⟩

/-- The word that starts an import, at the start of a text. -/
theorem step_import (more : List Char) : Step ⟨{}, 0, "import".toList ++ (" \x7b ".toList ++ more)⟩
    [⟨0, .importDeclaration⟩] ⟨State.afterWord {} "import", 6, " \x7b ".toList ++ more⟩ := by
  have hblank : ∀ d ∈ (" \x7b ".toList ++ more).head?, isWordPart d = false := by
    rintro d ⟨⟩
    decide
  have hnext : nextSignificant (" \x7b ".toList ++ more) = some '\x7b' :=
    (nextSignificant_blank (.inr rfl) _).trans (nextSignificant_visible (by decide) (by decide) (' ' :: more))
  have hfound : State.restriction? {} "import" (" \x7b ".toList ++ more) = some .importDeclaration := by
    rw [State.restriction?, hnext]
    rfl
  have hstep := step_of_isWord (w := "import") (by decide) hblank {} 0
  rw [hfound] at hstep
  exact hstep

/-- The word that starts an export is nothing to a module. -/
theorem passes_exportWord (hpoint : s.afterPoint = false) (offset : Nat) (more : List Char) :
    Passes ⟨s, offset, "export".toList ++ (" \x7b ".toList ++ more)⟩ []
      ⟨s.afterWord "export", offset + 6, " \x7b ".toList ++ more⟩ := by
  have hblank : ∀ d ∈ (" \x7b ".toList ++ more).head?, isWordPart d = false := by
    rintro d ⟨⟩
    decide
  refine ⟨_, .single (step_of_isWord (w := "export") (by decide) hblank s offset), ?_⟩
  have hfound : s.restriction? "export" (" \x7b ".toList ++ more) =
      if s.atStatementStart then some .exportDeclaration else none := rfl
  rw [hpoint, if_neg Bool.false_ne_true, hfound]
  cases s.atStatementStart <;> rfl

end Place

/-! Whole texts. -/

section

variable {pairs : List (String × String)} {gap : List Char}
  (hpairs : ∀ p ∈ pairs, isWord p.1 = true ∧ isWord p.2 = true)
  (hgap : ∀ c ∈ gap, c = '\n' ∨ isInlineBlank c = true)

include hpairs hgap

/-- The scan runs into the import at once, and then into the names that strict code reserves. -/
theorem scan_specifiers : ∃ (found : List Finding) (offset : Nat),
    scan (importing pairs ++ (gap ++ exporting pairs)) = ⟨⟨0, .importDeclaration⟩ :: found, none⟩ ∧
      found.filter (·.what.goal = .module) = reservedIn 9 pairs ++ reservedIn offset (pairs.map Prod.swap) := by
  have hswap : ∀ p ∈ pairs.map Prod.swap, isWord p.1 = true ∧ isWord p.2 = true := by
    intro p hp
    obtain ⟨q, hq, rfl⟩ := List.mem_map.1 hp
    exact (hpairs q hq).symm
  have hplain : ¬ ['#', '!'] <+: importing pairs ++ (gap ++ exporting pairs) := by
    rintro ⟨more, hmore⟩
    cases hmore
  have himport : Place.start (importing pairs ++ (gap ++ exporting pairs)) = ⟨{}, 0,
      clause "import" pairs (" from \"m\";".toList ++ (gap ++ exporting pairs))⟩ := by
    rw [Place.start_of_plain hplain, importing, clause_append]
  have hbefore : State.IsOutside {} := ⟨rfl, nofun⟩
  have houtside := hbefore.afterWord (w := "import") (by decide)
  obtain ⟨imported, offset, himported, hsign, himports⟩ := Place.exists_passes_import hpairs houtside
    (State.afterWord_previous ..) 6 (gap ++ exporting pairs)
  obtain ⟨between, offset', hbetween, hprevious, hblanks⟩ :=
    Place.exists_reaches_gap hgap himported offset (exporting pairs)
  have hpoint : between.afterPoint = false := by simp [State.afterPoint, hprevious, hsign]
  have hexport := Place.passes_exportWord hpoint offset'
    (specifiers (pairs.map Prod.swap) ++ (" \x7d".toList ++ [';']))
  obtain ⟨last, offset'', hlast, hexports⟩ := Place.exists_passes_export hswap
    (hbetween.afterWord (w := "export") (by decide)) (State.afterWord_previous ..) (offset' + 6)
  obtain ⟨found, hreaches, hfound⟩ :=
    himports.trans ((Place.Passes.of_reaches hblanks).trans (hexport.trans hexports))
  have hscan := (Place.Reaches.step (Place.step_import _) hreaches).scan
  rw [Place.scan_nil hlast] at hscan
  have hwhole : scan (importing pairs ++ (gap ++ exporting pairs)) = ⟨⟨0, .importDeclaration⟩ :: found, none⟩ := by
    rw [← Place.scan_start, himport]
    exact hscan.trans (by simp [Scan.after])
  exact ⟨found, offset' + 6 + 3, hwhole, by simpa using hfound⟩

end

theorem reservedIn_eq_nil {pairs : List (String × String)} (h : ∀ p ∈ pairs, p.1 ∉ strictWords ∧ p.2 ∉ strictWords)
    (offset : Nat) : reservedIn offset pairs = [] := by
  induction pairs generalizing offset with
  | nil => rfl
  | cons p pairs ih =>
    obtain ⟨hx, hy⟩ := h p List.mem_cons_self
    rw [reservedIn, reservedAt, reservedAt, ih fun q hq => h q (List.mem_cons_of_mem _ hq)]
    simp [hx, hy]

/-- What stands before a pair, behind the brace. -/
def specifiersBefore (pairs : List (String × String)) : List Char :=
  pairs.flatMap fun p => specifier p.1 p.2 ++ ", ".toList

/-- The first reserved name is the first that is found. -/
theorem head?_reservedIn {earlier : List (String × String)} {w : String}
    (hearlier : ∀ p ∈ earlier, p.1 ∉ strictWords ∧ p.2 ∉ strictWords) (hw : w ∈ strictWords) (b : String)
    (later : List (String × String)) (offset : Nat) :
    (reservedIn offset (earlier ++ (w, b) :: later)).head? =
      some ⟨offset + Text.byteSize (specifiersBefore earlier), .reservedWord w⟩ := by
  induction earlier generalizing offset with
  | nil =>
    rw [List.nil_append, reservedIn, reservedAt, if_pos (List.contains_iff_mem.2 hw)]
    rfl
  | cons p earlier ih =>
    obtain ⟨hx, hy⟩ := hearlier p List.mem_cons_self
    have hnone (offset : Nat) {w : String} (hw : w ∉ strictWords) : reservedAt offset w = [] :=
      if_neg (mt List.contains_iff_mem.1 hw)
    have hsize : Text.byteSize (specifiersBefore (p :: earlier)) =
        Text.byteSize (specifier p.1 p.2) + 2 + Text.byteSize (specifiersBefore earlier) := by
      rw [specifiersBefore, List.flatMap_cons, Text.byteSize_append, Text.byteSize_append]
      rfl
    rw [List.cons_append, reservedIn, hnone _ hx, hnone _ hy, List.nil_append, List.nil_append,
      ih (fun q hq => hearlier q (List.mem_cons_of_mem _ hq)), hsize, Nat.add_assoc, Nat.add_assoc, Nat.add_assoc]

/--
A module may import and export under any names but those that strict code reserves: the first such name fails it,
although it names no binding. A script fails at once.
-/
theorem attempt_specifiers {pairs : List (String × String)}
    (hpairs : ∀ p ∈ pairs, isWord p.1 = true ∧ isWord p.2 = true ∧ p.2 ∉ strictWords) {gap : List Char}
    (hgap : ∀ c ∈ gap, c = '\n' ∨ isInlineBlank c = true) :
    let text := importing pairs ++ (gap ++ exporting pairs)
    probe.attempt (Utf8.encode text) .script =
        .error ⟨⟨1, 1, 0⟩, "import declarations may only appear in module code"⟩ ∧
      ((∀ p ∈ pairs, p.1 ∉ strictWords) → probe.attempt (Utf8.encode text) .module = .ok ()) ∧
      ∀ (earlier later : List (String × String)) (w b : String), pairs = earlier ++ (w, b) :: later →
        (∀ p ∈ earlier, p.1 ∉ strictWords) → w ∈ strictWords →
        probe.attempt (Utf8.encode text) .module =
          .error ⟨.ofOffset text (9 + Text.byteSize (specifiersBefore earlier)),
            s!"'{w}' is a reserved word in module code"⟩ := by
  intro text
  obtain ⟨found, offset, hscan, hfound⟩ := scan_specifiers (fun p hp => (hpairs p hp).imp_right And.left) hgap
  have hclosed : (scan text).fault = none := congrArg Scan.fault hscan
  have hmodule : (scan text).findingsOf .module = reservedIn 9 pairs ++ reservedIn offset (pairs.map Prod.swap) := by
    rw [Scan.findingsOf, hscan, ← hfound]
    rfl
  have hviolation (goal : Goal) : (scan text).violation? goal =
      ((scan text).findingsOf goal).head?.map fun r => ⟨r.offset, .restriction r.what⟩ :=
    Scan.violation?_of_closed hclosed
  refine ⟨?_, fun hfree => ?_, ?_⟩
  · rw [probe_encode, judge, hviolation, Scan.findingsOf, hscan]
    rfl
  · have hplain : ∀ p ∈ pairs, p.1 ∉ strictWords ∧ p.2 ∉ strictWords := fun p hp =>
      ⟨hfree p hp, (hpairs p hp).2.2⟩
    have hswap : ∀ p ∈ pairs.map Prod.swap, p.1 ∉ strictWords ∧ p.2 ∉ strictWords := by
      intro p hp
      obtain ⟨q, hq, rfl⟩ := List.mem_map.1 hp
      exact (hplain q hq).symm
    rw [probe_encode, judge, hviolation, hmodule, reservedIn_eq_nil hplain, reservedIn_eq_nil hswap]
    rfl
  · rintro earlier later w b rfl hearlier hw
    have hplain : ∀ p ∈ earlier, p.1 ∉ strictWords ∧ p.2 ∉ strictWords := fun p hp =>
      ⟨hearlier p hp, (hpairs p (List.mem_append_left _ hp)).2.2⟩
    have hhead := head?_reservedIn hplain hw b later 9
    rw [probe_encode, judge, hviolation, hmodule, List.head?_append, hhead]
    rfl

/-- Words that mean much elsewhere mean nothing between the braces. -/
theorem attempt_specifiers_of_keywords :
    probe.attempt (Utf8.ofString
        "import \x7b await as a, class as b, let as c \x7d from \"m\";\nexport \x7b a as await, b as class, c as let \x7d;")
      .module = .ok () := by
  have hpairs : ∀ p ∈ [("await", "a"), ("class", "b"), ("let", "c")],
      isWord p.1 = true ∧ isWord p.2 = true ∧ p.2 ∉ strictWords := by decide +kernel
  have hgap : ∀ c ∈ ['\n'], c = '\n' ∨ isInlineBlank c = true := by simp
  obtain ⟨-, hmodule, -⟩ := attempt_specifiers hpairs hgap
  exact hmodule (by decide +kernel)

/-- A module may not import a thing that another one exports under the name `static`. -/
theorem attempt_specifiers_of_static :
    probe.attempt (Utf8.ofString "import \x7b static as b \x7d from \"m\";\nexport \x7b b as static \x7d;") .module =
      .error ⟨⟨1, 10, 9⟩, "'static' is a reserved word in module code"⟩ := by
  have hviolation :
      (scan "import \x7b static as b \x7d from \"m\";\nexport \x7b b as static \x7d;".toList).violation? .module =
        some ⟨9, .restriction (.reservedWord "static")⟩ := by decide +kernel
  rw [Utf8.ofString, probe_encode, judge, hviolation]
  rfl

end ParseGoal.Ecma
