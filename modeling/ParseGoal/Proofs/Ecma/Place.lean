import ParseGoal.Ecma.Scan
import ParseGoal.Proofs.Ecma.Cut

/-!
The places that a scan comes to, lexeme by lexeme, and what it has found on the way.
-/
namespace ParseGoal.Ecma

theorem byteSize_cut (context : Context) (c : Char) (rest : List Char) :
    Text.byteSize (cut context c rest).text + Text.byteSize (cut context c rest).rest =
      Text.byteSize (c :: rest) := by
  rw [← Text.byteSize_append, cut_append]

/-- A place in a scan. -/
structure Place where
  state : State
  offset : Nat
  /-- The text still to be scanned. -/
  rest : List Char

namespace Place

/-- Where the scan of a text takes its first lexeme. -/
def start (text : List Char) : Place :=
  ⟨{}, Text.byteSize (interpreterLine text), afterInterpreterLine text⟩

/-- What a scan finds from a place on. -/
def scan (p : Place) : Scan := scanFrom p.state p.offset p.rest

/-- Whether a test holds of the state and the next lexeme. At the end of the text there is none. -/
def meets (test : State → Cut → Bool) (p : Place) : Bool :=
  match p.rest with
  | [] => false
  | c :: rest => test p.state (cut p.state.context c rest)

/-- From one place to the place after the next lexeme, which runs into `found`. -/
inductive Step : Place → List Finding → Place → Prop
  | intro {s next : State} {offset : Nat} {c : Char} {rest : List Char} {piece : Cut}
      {found : List Finding} (hcut : cut s.context c rest = piece)
      (htake : s.take offset piece.lexeme piece.rest = ⟨found, .ok next⟩) :
      Step ⟨s, offset, c :: rest⟩ found ⟨next, offset + Text.byteSize piece.text, piece.rest⟩

/-- From one place to another, with all that is found between them. -/
inductive Reaches : Place → List Finding → Place → Prop
  | refl (p : Place) : Reaches p [] p
  | step {p q r : Place} {found later : List Finding} (h : Step p found q)
      (hrest : Reaches q later r) : Reaches p (found ++ later) r

end Place

theorem Scan.after_after (earlier later : List Finding) (s : Scan) :
    (s.after later).after earlier = s.after (earlier ++ later) := by
  simp [Scan.after]

@[simp] theorem Scan.after_nil (s : Scan) : s.after [] = s := rfl

@[simp] theorem Scan.fault_after (earlier : List Finding) (s : Scan) :
    (s.after earlier).fault = s.fault := rfl

@[simp] theorem Scan.findings_after (earlier : List Finding) (s : Scan) :
    (s.after earlier).findings = earlier ++ s.findings := rfl

namespace Place

variable {p q r : Place} {found later : List Finding}

theorem Step.scan (h : Step p found q) : p.scan = q.scan.after found := by
  obtain ⟨hcut, htake⟩ := h
  rw [Place.scan, scanFrom, hcut, htake]
  rfl

theorem Step.exists_append (h : Step p found q) : ∃ text, text ≠ [] ∧ p.rest = text ++ q.rest ∧
    q.offset = p.offset + Text.byteSize text := by
  obtain ⟨hcut, -⟩ := h
  rename_i s _ offset c rest piece
  obtain ⟨more, htext, hrest⟩ := hcut ▸ cut_splits s.context c rest
  exact ⟨piece.text, by simp [htext], by simp [htext, hrest], rfl⟩

namespace Reaches

theorem trans (h : Reaches p found q) (h' : Reaches q later r) : Reaches p (found ++ later) r := by
  induction h with
  | refl => exact h'
  | step hstep _ ih => exact List.append_assoc .. ▸ step hstep (ih h')

theorem single (h : Step p found q) : Reaches p found q := by
  simpa using step h (refl q)

/-- One lexeme that runs into nothing, and then the others. -/
theorem quiet {s next : State} {offset : Nat} {c : Char} {rest : List Char} {piece : Cut}
    (hcut : cut s.context c rest = piece) (htake : s.take offset piece.lexeme piece.rest = ⟨[], .ok next⟩)
    (h : Reaches ⟨next, offset + Text.byteSize piece.text, piece.rest⟩ later r) :
    Reaches ⟨s, offset, c :: rest⟩ later r := step (.intro hcut htake) h

theorem scan (h : Reaches p found q) : p.scan = q.scan.after found := by
  induction h with
  | refl => rfl
  | step hstep _ ih => rw [hstep.scan, ih, Scan.after_after]

theorem exists_append (h : Reaches p found q) : ∃ text, p.rest = text ++ q.rest ∧
    q.offset = p.offset + Text.byteSize text := by
  induction h with
  | refl => exact ⟨[], rfl, rfl⟩
  | step hstep _ ih =>
    obtain ⟨first, -, hfirst, hoffset⟩ := hstep.exists_append
    obtain ⟨text, htext, hoffset'⟩ := ih
    exact ⟨first ++ text, by rw [hfirst, htext, List.append_assoc],
      by rw [hoffset', hoffset, Text.byteSize_append, Nat.add_assoc]⟩

end Reaches

theorem Step.unique {found' : List Finding} (h : Step p found q) (h' : Step p found' r) :
    found = found' ∧ q = r := by
  obtain ⟨rfl, htake⟩ := h
  cases h' with
  | intro hcut htake' =>
    subst hcut
    obtain ⟨rfl, hnext⟩ := Turn.mk.inj (htake.symm.trans htake')
    obtain rfl := Except.ok.inj hnext
    exact ⟨rfl, rfl⟩

/-- From one place, the scan comes to another. -/
def Visits (p q : Place) : Prop := ∃ found, Reaches p found q

namespace Visits

theorem refl (p : Place) : Visits p p := ⟨[], .refl p⟩

theorem step (h : Step p found q) (hvisits : Visits q r) : Visits p r := by
  obtain ⟨later, hreaches⟩ := hvisits
  exact ⟨_, .step h hreaches⟩

theorem of_step (h : Step p found q) (hvisits : Visits p r) : r = p ∨ Visits q r := by
  obtain ⟨later, hreaches⟩ := hvisits
  cases hreaches with
  | refl => exact .inl rfl
  | step hstep hreaches =>
    obtain ⟨-, rfl⟩ := h.unique hstep
    exact .inr ⟨_, hreaches⟩

theorem iff_of_step (h : Step p found q) : Visits p r ↔ r = p ∨ Visits q r :=
  ⟨of_step h, fun hr => hr.elim (fun heq => heq ▸ refl p) (.step h)⟩

theorem offset_le (h : Visits p q) : p.offset ≤ q.offset := by
  obtain ⟨found, h⟩ := h
  obtain ⟨text, -, hoffset⟩ := h.exists_append
  omega

theorem eq_of_nil (h : Visits p q) (hrest : p.rest = []) : q = p := by
  obtain ⟨found, h⟩ := h
  cases h with
  | refl => rfl
  | step hstep =>
    cases hstep
    cases hrest

theorem meets_of_nil (h : Visits p q) (hrest : p.rest = []) (test : State → Cut → Bool) :
    q.meets test = false := by
  rw [h.eq_of_nil hrest, meets, hrest]

end Visits

/-- A word, as a lexeme: it runs into what restricts it there, if it is no property name. -/
theorem step_of_isWord {w : String} {rest : List Char} (hw : isWord w = true)
    (hrest : ∀ c ∈ rest.head?, isWordPart c = false) (s : State) (offset : Nat) :
    Step ⟨s, offset, w.toList ++ rest⟩
      ((if s.afterPoint then none else s.restriction? w rest).toList.map (⟨offset, ·⟩))
      ⟨s.afterWord w, offset + Text.byteSize w.toList, rest⟩ := by
  obtain ⟨c, more, htext, -, hcut⟩ := exists_cut_of_isWord hw hrest s.context
  rw [htext]
  exact .intro hcut rfl

/-- A scan that ends outside all brackets finds nothing more. -/
theorem scan_nil {s : State} (hframes : s.frames = []) (offset : Nat) : scan ⟨s, offset, []⟩ = ⟨[], none⟩ := by
  rw [scan, scanFrom, State.unclosed?, hframes]
  rfl

/-- A scan that meets no fault comes to the end of the text, with all brackets closed. -/
theorem exists_reaches_end (p : Place) (h : p.scan.fault = none) : ∃ last : State,
    Reaches p p.scan.findings ⟨last, p.offset + Text.byteSize p.rest, []⟩ ∧ last.frames = [] := by
  obtain ⟨s, offset, rest⟩ := p
  simp only [Place.scan] at h ⊢
  fun_induction scanFrom s offset rest with
  | case1 s offset =>
    have hframes : s.frames = [] := by simpa [State.unclosed?] using h
    exact ⟨s, .refl _, hframes⟩
  | case2 => simp at h
  | case3 s offset c rest piece turn next hnext ih =>
    obtain ⟨last, hreaches, hframes⟩ := ih h
    have hstep : Step ⟨s, offset, c :: rest⟩ turn.findings
        ⟨next, offset + Text.byteSize piece.text, piece.rest⟩ :=
      .intro rfl (by rw [← hnext])
    have hsize : Text.byteSize piece.text + Text.byteSize piece.rest = Text.byteSize (c :: rest) :=
      byteSize_cut ..
    rw [Nat.add_assoc, hsize] at hreaches
    exact ⟨last, .step hstep hreaches, hframes⟩

end Place
end ParseGoal.Ecma
