import ParseGoal.Proofs.Ecma.Member
import ParseGoal.Proofs.Ecma.Trivia

/-!
Spread in a list. Its three points are a point each to a scan, and so it takes the word behind them for a property
name. That shows for the words alone that mean something at the start of a list.
-/
namespace ParseGoal.Ecma

/-- Words that mean something at the start of a list. -/
def listWords : List String := controlWords ++ strictWords ++ ["import", "await", "class"]

/-- The start of a list that is a whole text. -/
def State.inList : State := State.takeOpener {} 0 .square

theorem Place.reaches_list (text : List Char) : Reaches (start ('[' :: text)) [] ⟨State.inList, 1, text⟩ :=
  .single (.intro rfl rfl)

/-- A list that starts with a word. -/
def listOf (word : String) (rest : List Char) : List Char := '[' :: (word.toList ++ (rest ++ [']']))

/-- A list that starts with a spread, and then with a word. -/
def spreadOf (word : String) (rest : List Char) : List Char := "[...".toList ++ (word.toList ++ (rest ++ [']']))

/-- A word that means nothing at the start of a list, in front of what cannot go on with it. -/
structure IsPlainHead (w : String) (rest : List Char) : Prop where
  isWord : isWord w = true
  unlisted : w ∉ listWords
  stops : ∀ c ∈ rest.head?, isWordPart c = false

section

variable {w : String} {rest : List Char} (h : IsPlainHead w rest)

include h

namespace State

theorem restriction?_inList : inList.restriction? w rest = none := by
  have hw := h.unlisted
  simp only [listWords, controlWords, List.mem_append, List.mem_cons, not_or] at hw
  obtain ⟨⟨hcontrol, hstrict⟩, himport, hawait, -⟩ := hw
  have hwith : w ≠ "with" := hcontrol.2.2.2.1
  have hstatement : inList.atStatementStart = false := rfl
  have hprevious : inList.previous = some (.punctuator '[') := rfl
  simp [restriction?, himport, hwith, hawait, hstrict, hstatement, hprevious]

theorem afterWord_inList : inList.afterWord w = inList.afterToken (.word w) := by
  have hw := h.unlisted
  simp only [listWords, List.mem_append, List.mem_cons, not_or] at hw
  obtain ⟨⟨hcontrol, -⟩, -, hawait, hclass, -⟩ := hw
  have hhead : inList.opensHead w = false := by simp [opensHead, hcontrol, hawait]
  rw [afterWord, hhead, if_neg hclass]
  exact ite_self _

end State

namespace Place

/-- The points leave nothing of a spread but that a point is the last token. -/
theorem reaches_spread :
    Reaches (start ("[...".toList ++ (w.toList ++ rest))) []
      ⟨State.inList.afterToken (.punctuator '.'), 4, w.toList ++ rest⟩ := by
  have hfirst : Step ⟨State.inList, 1, '.' :: '.' :: '.' :: (w.toList ++ rest)⟩ []
      ⟨State.inList.afterToken (.punctuator '.'), 2, '.' :: '.' :: (w.toList ++ rest)⟩ := .intro rfl rfl
  have hsecond : Step ⟨State.inList.afterToken (.punctuator '.'), 2, '.' :: '.' :: (w.toList ++ rest)⟩ []
      ⟨State.inList.afterToken (.punctuator '.'), 3, '.' :: (w.toList ++ rest)⟩ := .intro rfl rfl
  have hthird := step_point h.isWord h.stops (State.inList.afterToken (.punctuator '.')) 3
  exact (reaches_list _).trans (.step hfirst (.step hsecond (.single hthird)))

/-- A word that means nothing at the start of a list, as a lexeme there. -/
theorem step_inList :
    Step ⟨State.inList, 1, w.toList ++ rest⟩ []
      ⟨State.inList.afterToken (.word w), 1 + Text.byteSize w.toList, rest⟩ := by
  have hstep := step_of_isWord h.isWord h.stops State.inList 1
  rwa [State.restriction?_inList h, State.afterWord_inList h, ite_self] at hstep

end Place

/-- Behind the word, both scans go on alike, three bytes apart. -/
theorem scan_spread :
    scan ("[...".toList ++ (w.toList ++ rest)) =
      (scan ('[' :: (w.toList ++ rest))).relocate (pastInsertion 1 3) := by
  let behind : State := State.inList.afterToken (.word w)
  have hlist := (Place.reaches_list _).trans (.single (Place.step_inList h))
  have hspread := (Place.reaches_spread h).trans (.single (Place.step_member h.isWord h.stops rfl 4))
  have hfixed : behind.All fun n => pastInsertion 1 3 n = n := by
    rintro frame hframe
    obtain rfl := List.mem_singleton.1 hframe
    rfl
  have hmoves (k : Nat) : pastInsertion 1 3 (1 + Text.byteSize w.toList + k) =
      pastInsertion 1 3 (1 + Text.byteSize w.toList) + k := by
    rw [Nat.add_assoc, pastInsertion_add, pastInsertion_add]
    omega
  have hlater := scanFrom_embeds ((Embeds.refl behind).of_fixed hfixed) _ hmoves rest
  rw [pastInsertion_add] at hlater
  exact hspread.scan.trans (hlater.trans (congrArg (Scan.relocate _) hlist.scan.symm))

/-- The bracket that ends the list does not go on with the word either. -/
theorem IsPlainHead.closed : IsPlainHead w (rest ++ [']']) where
  isWord := h.isWord
  unlisted := h.unlisted
  stops := by
    cases rest with
    | nil =>
      rintro c ⟨⟩
      decide
    | cons d rest => exact h.stops

theorem outcome_spread (goal : Goal) : outcome (spreadOf w rest) goal = outcome (listOf w rest) goal := by
  rw [outcome_eq, outcome_eq, spreadOf, scan_spread h.closed, Scan.violation?_relocate (strictMono_pastInsertion ..),
    ← listOf]
  cases (scan (listOf w rest)).violation? goal <;> rfl

end

/-! What tells a spread from no spread. -/

/-- What shows behind a word that it means something at the start of a list. -/
def listTouchstone (word : String) : List Char :=
  if word = "import" then ".meta".toList
  else if word = "await" then " x".toList
  else if word = "class" then " \x7b static x \x7d".toList
  else if controlWords.contains word then " (x) /b".toList
  else []

theorem outcome_listTouchstone : ∀ w ∈ listWords, ∃ goal,
    outcome (spreadOf w (listTouchstone w)) goal ≠ outcome (listOf w (listTouchstone w)) goal := by
  have hscan : ∀ w ∈ listWords, ∃ goal ∈ [Goal.script, .module],
      ((scan (spreadOf w (listTouchstone w))).violation? goal).isNone ≠
        ((scan (listOf w (listTouchstone w))).violation? goal).isNone := by
    decide +kernel
  intro w hw
  obtain ⟨goal, -, hne⟩ := hscan w hw
  exact ⟨goal, fun houtcome => hne (isNone_violation?_of_outcome houtcome)⟩

/--
A spread in front of a word changes no verdict on a list exactly if the word means nothing at the start of a list:
the list fails for the same reason then, or not at all.
-/
theorem outcome_spread_iff {w : String} (hw : isWord w = true) :
    (∀ {rest : List Char}, (∀ c ∈ rest.head?, isWordPart c = false) →
      ∀ goal, outcome ("[...".toList ++ (w.toList ++ (rest ++ [']']))) goal =
        outcome ('[' :: (w.toList ++ (rest ++ [']']))) goal) ↔
      w ∉ controlWords ++ strictWords ++ ["import", "await", "class"] := by
  constructor
  · intro hsame hword
    have hstops : ∀ w ∈ listWords, (listTouchstone w).head?.all (!isWordPart ·) = true := by decide
    have hstop : ∀ c ∈ (listTouchstone w).head?, isWordPart c = false := by
      simpa [Option.all_eq_true] using hstops w hword
    obtain ⟨goal, hne⟩ := outcome_listTouchstone w hword
    exact hne (hsame hstop goal)
  · intro hword rest hrest goal
    exact outcome_spread ⟨hw, hword, hrest⟩ goal

/-- A call behind a spread goes on to where it fails alone. -/
theorem outcome_spread_iff_of_call : isWord "f" = true ∧
    outcome "[...f(await x)]".toList .script = outcome "[f(await x)]".toList .script := by
  have hstop : ∀ c ∈ "(await x)".toList.head?, isWordPart c = false := by
    rintro c ⟨⟩
    decide
  have hsame := (outcome_spread_iff (w := "f") (by decide)).2 (by decide) hstop .script
  exact ⟨by decide, hsame⟩

/-- Behind a spread, an operand of `await` is not seen. -/
theorem outcome_spread_of_await :
    outcome "[...await x]".toList .script = .ok () ∧
      outcome "[await x]".toList .script =
        .error "'await' is only valid in async functions and module code" := by
  have hspread : (scan "[...await x]".toList).violation? .script = none := by decide +kernel
  have hlist : (scan "[await x]".toList).violation? .script = some ⟨1, .restriction .await⟩ := by
    decide +kernel
  refine ⟨?_, ?_⟩
  · rw [outcome_eq, hspread]
  · rw [outcome_eq, hlist]
    rfl

end ParseGoal.Ecma
