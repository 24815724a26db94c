import ParseGoal.Proofs.Ecma.Opacity

/-!
Keys of objects. In front of a colon no word runs into anything, and behind the colon nothing asks for the word
any more. Still the word for a class, as a key, makes a scan wait for the body of a class, and it takes the next
brace that opens at the same depth for one.
-/
namespace ParseGoal.Ecma

section

variable {v w : String} {s : State}

/-- In brackets and behind a sign, no word in front of a colon runs into anything. -/
theorem State.restriction?_key (hframes : s.frames ≠ []) {c : Char}
    (hprevious : s.previous = some (.punctuator c)) (word : String) (rest : List Char) :
    s.restriction? word (':' :: rest) = none := by
  have hnext : nextSignificant (':' :: rest) = some ':' := nextSignificant_visible (by decide) (by decide) rest
  have hoperand : operandFollows (':' :: rest) = false := operandFollows_visible (by decide) (by decide) rest
  have hstatement : s.atStatementStart = false := by simp [atStatementStart, hframes]
  have hbinding : s.namesBinding (':' :: rest) = false := by rw [namesBinding, hnext, if_pos rfl]
  simp [restriction?, hnext, hoperand, hstatement, hbinding, hprevious]

/-- A word in front of a colon, as a lexeme. -/
theorem Place.step_key (hw : isWord w = true) (hframes : s.frames ≠ []) {c : Char}
    (hprevious : s.previous = some (.punctuator c)) (offset : Nat) (rest : List Char) :
    Step ⟨s, offset, w.toList ++ ':' :: rest⟩ []
      ⟨s.afterWord w, offset + Text.byteSize w.toList, ':' :: rest⟩ := by
  have hstop : ∀ d ∈ (':' :: rest).head?, isWordPart d = false := by
    rintro d ⟨⟩
    decide
  have hstep := step_of_isWord hw hstop s offset
  rwa [s.restriction?_key hframes hprevious, ite_self] at hstep

/-- Behind the colon, nothing is left of a key but that a class may wait for its body. -/
theorem State.afterWord_colon (hpoint : s.afterPoint = false) (hclass : v = "class" ↔ w = "class") :
    (s.afterWord v).afterToken (.punctuator ':') = (s.afterWord w).afterToken (.punctuator ':') := by
  simp [afterWord, hpoint, afterToken, hclass]

theorem scanFrom_key (hpoint : s.afterPoint = false) (hclass : v = "class" ↔ w = "class") (offset : Nat)
    (rest : List Char) :
    scanFrom (s.afterWord v) offset (':' :: rest) = scanFrom (s.afterWord w) offset (':' :: rest) := by
  have hcolon (u : String) : Place.Step ⟨s.afterWord u, offset, ':' :: rest⟩ []
      ⟨(s.afterWord u).afterToken (.punctuator ':'), offset + 1, rest⟩ := .intro rfl rfl
  have hv := (hcolon v).scan
  rw [State.afterWord_colon hpoint hclass, ← (hcolon w).scan] at hv
  exact hv

end

/-- What comes before a brace does not look behind it. -/
theorem junction_brace (text other : List Char) :
    Junction ('\x7b' :: text) ('\x7b' :: other) ('\x7b' :: other) 0 :=
  .of_visible (fun before => .append before _ (by decide) other) (by decide) (by decide) rfl

section

variable {v w : String} {before rest : List Char} {s : State} {found : List Finding}
  (h : Place.Reaches (Place.start (before ++ ['\x7b'])) found ⟨s, Text.byteSize before, ['\x7b']⟩)

include h

/-- A brace at the end of a text opens the same in front of a key, and the key runs into nothing. -/
theorem reaches_key (hw : isWord w = true) (rest : List Char) :
    ∃ opened : State, Embeds id [] (s.takeOpener (Text.byteSize before) .curly) opened ∧
      Place.Reaches (Place.start (before ++ ['\x7b'] ++ (w.toList ++ ':' :: rest))) found
        ⟨opened, Text.byteSize (before ++ ['\x7b']), w.toList ++ ':' :: rest⟩ ∧
      Place.Step ⟨opened, Text.byteSize (before ++ ['\x7b']), w.toList ++ ':' :: rest⟩ []
        ⟨opened.afterWord w, Text.byteSize (before ++ ['\x7b']) + Text.byteSize w.toList, ':' :: rest⟩ := by
  obtain ⟨last, hlast, hreaches⟩ := h.splice_start (junction_brace [] (w.toList ++ ':' :: rest)) nofun rfl
  have hbrace : Place.Step ⟨last, Text.byteSize before, '\x7b' :: (w.toList ++ ':' :: rest)⟩ []
      ⟨last.takeOpener (Text.byteSize before) .curly, Text.byteSize before + 1, w.toList ++ ':' :: rest⟩ :=
    .intro rfl rfl
  have hopened := hreaches.trans (.single hbrace)
  have hsize : Text.byteSize (before ++ ['\x7b']) = Text.byteSize before + 1 := Text.byteSize_append before _
  rw [List.append_nil, List.append_cons] at hopened
  rw [hsize]
  exact ⟨_, hlast.takeOpener .., hopened, Place.step_key hw (List.cons_ne_nil _ _) rfl _ rest⟩

/--
Another key changes no verdict, if both or neither are the word for a class: what fails does so for the same
reason, at the same place or as far behind the key.
-/
theorem attempt_key (hv : isWord v = true) (hw : isWord w = true) (hclass : v = "class" ↔ w = "class")
    (goal : Goal) :
    (probe.attempt (Utf8.encode (before ++ ['\x7b'] ++ (w.toList ++ ':' :: rest))) goal : Verdict).mapError
        (fun failure => (failure.position.offset, failure.reason)) =
      (probe.attempt (Utf8.encode (before ++ ['\x7b'] ++ (v.toList ++ ':' :: rest))) goal : Verdict).mapError
        fun failure => (pastReplacement (Text.byteSize (before ++ ['\x7b'])) (Text.byteSize v.toList)
          (Text.byteSize w.toList) failure.position.offset, failure.reason) := by
  obtain ⟨opened, hembeds, hbefore, hkey⟩ := reaches_key h hv rest
  obtain ⟨opened', hembeds', hbefore', hkey'⟩ := reaches_key h hw rest
  refine attempt_replace hbefore hbefore' hkey hkey' (fun offset => ?_) goal
  have hpoint : (s.takeOpener (Text.byteSize before) .curly).afterPoint = false := rfl
  generalize s.takeOpener (Text.byteSize before) .curly = inside at hembeds hembeds' hpoint
  calc scanFrom (opened'.afterWord w) offset (':' :: rest)
      _ = scanFrom (inside.afterWord w) offset (':' :: rest) :=
        scanFrom_of_embeds (hembeds'.afterWord w) offset _
      _ = scanFrom (inside.afterWord v) offset (':' :: rest) := (scanFrom_key hpoint hclass offset rest).symm
      _ = scanFrom (opened.afterWord v) offset (':' :: rest) :=
        (scanFrom_of_embeds (hembeds.afterWord v) offset _).symm

end

/-! What tells a class from other keys. -/

/-- An object with a key, and an async method behind it. -/
def objectWith (key : String) : List Char :=
  "(\x7b".toList ++ (key.toList ++ (": 1, ".toList ++ "async m() \x7b await x \x7d \x7d)".toList))

theorem reaches_objectWith : Place.Reaches (Place.start (['('] ++ ['\x7b'])) []
    ⟨State.takeOpener {} 0 .round, Text.byteSize ['('], ['\x7b']⟩ := .single (.intro rfl rfl)

/-- The body of the method is taken for that of a class, where `await` belongs to no function. -/
theorem violation?_objectWith :
    (scan (objectWith "class")).violation? .script = some ⟨24, .restriction .await⟩ ∧
      (scan (objectWith "k")).violation? .script = none := by
  decide +kernel

theorem outcome_objectWith {key : String} (hkey : isWord key = true) :
    outcome (objectWith key) .script = .ok () ↔ key ≠ "class" := by
  obtain ⟨hfails, hpasses⟩ := violation?_objectWith
  constructor
  · rintro hok rfl
    rw [outcome_eq, hfails] at hok
    cases hok
  · intro hne
    have hclass : "k" = "class" ↔ key = "class" := by simp [hne]
    have hsame : outcome (objectWith key) .script = outcome (objectWith "k") .script :=
      outcome_eq_of_attempt (attempt_key reaches_objectWith (by decide) hkey hclass .script)
    rw [hsame, outcome_eq, hpasses]

/--
One key may stand for another behind every brace exactly if both or neither are the word for a class: the texts
fail for the same reason then, or not at all.
-/
theorem outcome_key_iff {v w : String} (hv : isWord v = true) (hw : isWord w = true) :
    (∀ {before rest : List Char} {s : State} {found : List Finding},
      Place.Reaches (Place.start (before ++ ['\x7b'])) found ⟨s, Text.byteSize before, ['\x7b']⟩ →
      ∀ goal, outcome (before ++ ['\x7b'] ++ (w.toList ++ (": 1, ".toList ++ rest))) goal =
        outcome (before ++ ['\x7b'] ++ (v.toList ++ (": 1, ".toList ++ rest))) goal) ↔
      (v = "class" ↔ w = "class") := by
  constructor
  · intro hsame
    have hobjects : outcome (objectWith w) .script = outcome (objectWith v) .script :=
      hsame reaches_objectWith .script
    have hpasses := outcome_objectWith hw
    rw [hobjects, outcome_objectWith hv] at hpasses
    exact not_iff_not.1 hpasses
  · intro hclass before rest s found h goal
    exact outcome_eq_of_attempt (attempt_key h hv hw hclass goal)

/-- A word that strict code reserves is a key like any other. -/
theorem outcome_key_iff_of_static : isWord "k" = true ∧ isWord "static" = true ∧
    outcome "(\x7bstatic: 1, m() \x7b await x \x7d \x7d)".toList .module =
      outcome "(\x7bk: 1, m() \x7b await x \x7d \x7d)".toList .module := by
  have hsame : ∀ goal, outcome (['('] ++ ['\x7b'] ++
        ("static".toList ++ (": 1, ".toList ++ "m() \x7b await x \x7d \x7d)".toList))) goal =
      outcome (['('] ++ ['\x7b'] ++
        ("k".toList ++ (": 1, ".toList ++ "m() \x7b await x \x7d \x7d)".toList))) goal :=
    (outcome_key_iff (by decide) (by decide)).2 (by decide) reaches_objectWith
  exact ⟨by decide, by decide, hsame .module⟩

/-- As a key, the word for a class makes an async method fail that passes behind another key. -/
theorem outcome_key_of_class :
    (∃ s found, Place.Reaches (Place.start (['('] ++ ['\x7b'])) found ⟨s, Text.byteSize ['('], ['\x7b']⟩) ∧
      outcome (['('] ++ ['\x7b'] ++
          ("class".toList ++ (": 1, ".toList ++ "async m() \x7b await x \x7d \x7d)".toList))) .script =
        .error "'await' is only valid in async functions and module code" ∧
      outcome (['('] ++ ['\x7b'] ++
          ("k".toList ++ (": 1, ".toList ++ "async m() \x7b await x \x7d \x7d)".toList))) .script =
        .ok () := by
  obtain ⟨hfails, hpasses⟩ := violation?_objectWith
  have hclass : outcome (objectWith "class") .script =
      .error "'await' is only valid in async functions and module code" := by
    rw [outcome_eq, hfails]
    rfl
  have hkey : outcome (objectWith "k") .script = .ok () := by rw [outcome_eq, hpasses]
  exact ⟨⟨_, _, reaches_objectWith⟩, hclass, hkey⟩

end ParseGoal.Ecma
