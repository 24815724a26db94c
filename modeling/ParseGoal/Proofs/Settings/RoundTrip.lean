import ParseGoal.Proofs.Disk.Ways
import ParseGoal.Proofs.Settings.Text
import ParseGoal.Proofs.Text.Utf8
import ParseGoal.Proofs.World
import ParseGoal.Settings.File

/-! Settings are loaded as they were saved, and settings that cannot be saved leave the file as it is. -/
namespace ParseGoal

namespace Program

variable {w : World} {path : Path} {content : Bytes}

theorem run_pathExists (h : w.disk.read w.cwd path = .ok content) :
    w.run (pathExists path) = (true, w) := by
  have hfile : w.perform (.isFile path) = (.ok true, w) :=
    congrArg (fun answer => (answer, w)) (Disk.isFile_of_read h)
  unfold pathExists
  rw [World.run_bind, World.run_request, hfile]
  rfl

end Program

theorem Utf8.toString?_ofString (text : String) : toString? (ofString text) = some text := by
  rw [toString?, decode?_ofString, Option.map_some, String.ofList_toList]

namespace Settings

variable {w : World} {s : Settings} {path : Path} {content : Bytes}

/-- How a file that can be read is loaded. -/
theorem act_load (h : w.disk.read w.cwd path = .ok content) :
    w.act (load path) =
      (match Utf8.toString? content with
        | some text => ofContent path text
        | none => .error (.io s!"reading config from {path}" Refusal.invalidText.reason), w) := by
  have hread : w.act (loadFrom path) =
      (match Utf8.toString? content with
        | some text => ofContent path text
        | none => .error (.io s!"reading config from {path}" Refusal.invalidText.reason), w) := by
    unfold loadFrom
    rw [World.act_bind, Action.doing, World.act_orFail, Program.run_readText h]
    cases Utf8.toString? content <;> rfl
  unfold load
  rw [World.act_bind, World.act_ofProgram, Program.run_pathExists h]
  exact hread

theorem isQuiet_load (path : Path) : (load path).IsQuiet := by
  have hexists : (Program.pathExists path).IsQuiet := by
    unfold Program.pathExists
    refine .bind (.isFile path) fun answer => ?_
    cases answer <;> exact .pure _
  unfold load
  refine .bind (.ofProgram hexists) fun found => ?_
  cases found with
  | false => exact .pure _
  | true => exact .bind (.orFail (.readText path) _) fun content => .ofExcept _

theorem ofContent_text (horder : s.NamesOnce) {text : String} (htext : s.text = .ok text) :
    ofContent path text = .ok s := by
  obtain ⟨order, horder⟩ := goalOrder_ok horder
  unfold ofContent
  rw [ofText?_text htext]
  dsimp only
  rw [horder]

/-- The first part of saving: the directories around a file are made, if it names any. -/
def makeParent (path : Path) : Action Unit :=
  match path.parent? with
  | some directory =>
    Action.orFail (Program.request (.makeDirectories directory)) fun refusal =>
      .configDirCreate directory refusal.reason
  | none => pure ()

/-- The second part: the settings are written, if they have a text. -/
def writeText (s : Settings) (path : Path) : Action Unit := do
  let text ← Action.ofExcept s.text
  Action.doing s!"writing config to {path}"
    (Program.request (.writeFile path (Utf8.ofString text)))

theorem save_eq (s : Settings) (path : Path) : s.save path = makeParent path >>= fun _ => s.writeText path := by
  unfold save makeParent
  cases path.parent? <;> rfl

theorem act_makeParent (h : w.grants (makeParent path).run = true) : ∃ made, w.disk.Grows made ∧
    w.act (makeParent path) = (.ok (), { w with disk := made }) := by
  unfold makeParent at h ⊢
  cases hparent : path.parent? with
  | none => exact ⟨w.disk, .refl w.disk, rfl⟩
  | some directory =>
    rw [hparent] at h
    dsimp only at h ⊢
    rw [World.grants_orFail, World.grants_request] at h
    rcases hmade : w.disk.makeDirectories w.cwd directory with ⟨answer, made⟩
    have hasked : w.perform (.makeDirectories directory) = (answer, { w with disk := made }) :=
      congrArg (fun outcome => (outcome.1, { w with disk := outcome.2 })) hmade
    rw [hasked] at h
    cases answer with
    | error refusal => cases h
    | ok _ =>
      refine ⟨made, ?_, ?_⟩
      · have hgrows : w.disk.Grows (w.disk.makeDirectories w.cwd directory).2 := Disk.grows_makeDirectories
        rwa [hmade] at hgrows
      · rw [World.act_orFail, World.run_request, hasked]
        rfl

theorem act_writeText {text : String} (htext : s.text = .ok text)
    (h : w.grants (s.writeText path).run = true) :
    ∃ after, w.disk.write w.cwd path (Utf8.ofString text) = (.ok (), after) ∧
      w.act (s.writeText path) = (.ok (), { w with disk := after }) := by
  unfold writeText at h ⊢
  rw [htext] at h ⊢
  have hdone : w.act (Action.ofExcept (.ok text)) = (.ok text, w) := rfl
  rw [World.grants_bind_ok _ hdone, Bool.and_eq_true, Action.doing, World.grants_orFail,
    World.grants_request] at h
  rw [World.act_bind_ok _ _ hdone, Action.doing, World.act_orFail, World.run_request]
  rcases hwrite : w.disk.write w.cwd path (Utf8.ofString text) with ⟨answer, after⟩
  have hasked : w.perform (.writeFile path (Utf8.ofString text)) = (answer, { w with disk := after }) :=
    congrArg (fun outcome => (outcome.1, { w with disk := outcome.2 })) hwrite
  rw [hasked] at h ⊢
  cases answer with
  | error refusal => cases h.2
  | ok _ => exact ⟨after, rfl, rfl⟩

/-- Settings with a text are saved, so that the file holds the text. -/
theorem act_save {text : String} (htext : s.text = .ok text) (h : w.grants (s.save path).run = true) :
    ∃ after, w.act (s.save path) = (.ok (), { w with disk := after }) ∧
      after.read w.cwd path = .ok (Utf8.ofString text) := by
  rw [save_eq] at h ⊢
  rw [World.grants_act_bind] at h
  obtain ⟨hparent, hwrite⟩ := Bool.and_eq_true_iff.1 h
  obtain ⟨made, -, hmade⟩ := act_makeParent hparent
  rw [hmade] at hwrite
  obtain ⟨after, hafter, hact⟩ := act_writeText htext hwrite
  refine ⟨after, ?_, Disk.read_write hafter⟩
  rw [World.act_bind_ok _ _ hmade]
  exact hact

theorem load_of_text {text : String} (horder : s.NamesOnce) (htext : s.text = .ok text)
    (h : w.grants (s.save path).run = true) :
    (w.act (s.save path)).1 = .ok () ∧ ((w.act (s.save path)).2.act (load path)).1 = .ok s := by
  obtain ⟨after, hsave, hread⟩ := act_save htext h
  have hload : (World.act { w with disk := after } (load path)).1 = ofContent path text := by
    rw [act_load (w := { w with disk := after }) hread, Utf8.toString?_ofString]
  rw [hsave, hload, ofContent_text horder htext]
  exact ⟨rfl, rfl⟩

/-- Settings without a text are not saved: at most some directories are new. -/
theorem act_save_error {e : Error} (htext : s.text = .error e) (h : w.grants (s.save path).run = true) :
    ∃ made, w.act (s.save path) = (.error e, { w with disk := made }) ∧ w.disk.Grows made := by
  rw [save_eq] at h ⊢
  rw [World.grants_act_bind] at h
  obtain ⟨made, hgrows, hmade⟩ := act_makeParent (Bool.and_eq_true_iff.1 h).1
  refine ⟨made, ?_, hgrows⟩
  rw [World.act_bind_ok _ _ hmade, writeText, htext]
  rfl

/--
Where nothing is refused, settings whose order names no goal twice and whose numbers are small enough are
loaded as they were saved. Numbers that are too large are an error, before the file is touched.
-/
theorem load_of_save (w : World) (s : Settings) (path : Path)
    (hgrants : w.grants (s.save path).run = true) :
    (s.NamesOnce → s.HasSmallNumbers →
      (w.act (s.save path)).1 = .ok () ∧ ((w.act (s.save path)).2.act (load path)).1 = .ok s) ∧
    (¬ s.HasSmallNumbers →
      (∃ reason, (w.act (s.save path)).1 = .error (.tomlSerialize reason)) ∧
        ∀ content, w.disk.read w.cwd path = .ok content →
          (w.act (s.save path)).2.disk.read w.cwd path = .ok content) := by
  constructor
  · intro horder hsmall
    exact load_of_text horder (text_ok hsmall) hgrants
  · intro hlarge
    obtain ⟨made, hsave, hgrows⟩ := act_save_error (text_error hlarge) hgrants
    rw [hsave]
    constructor
    · exact ⟨_, rfl⟩
    · intro content hread
      exact Disk.read_of_grows hgrows hread

/-- A text that needs escapes comes back, and a number that is too large leaves the file alone. -/
theorem load_of_save_escapes :
    let w : World := { disk := ⟨[(["goalpost.toml"], .file [0x23])]⟩ }
    let s : Settings := { general := { logFormat := "'''\"\n\x07" }, policy := { order := [.module], jobs := 3 } }
    let large : Settings := { policy := { timeLimit := 0x8000000000000000 } }
    w.grants (s.save "goalpost.toml").run = true ∧
      ((w.act (s.save "goalpost.toml")).2.act (load "goalpost.toml")).1 = .ok s ∧
      w.grants (large.save "goalpost.toml").run = true ∧
      (w.act (large.save "goalpost.toml")).2.disk.read w.cwd "goalpost.toml" = .ok [0x23] := by
  intro w s large
  have hgrants : w.grants (s.save "goalpost.toml").run = true := by rfl
  have hlarge : w.grants (large.save "goalpost.toml").run = true := by rfl
  have hread : w.disk.read w.cwd "goalpost.toml" = .ok [0x23] := by rfl
  have hsmall : s.HasSmallNumbers := by
    constructor <;> decide
  have hbound : ¬ large.HasSmallNumbers := fun h => absurd h.1 (by decide)
  exact ⟨hgrants, ((load_of_save w s "goalpost.toml" hgrants).1 (List.nodup_singleton _) hsmall).2,
    hlarge, ((load_of_save w large "goalpost.toml" hlarge).2 hbound).2 _ hread⟩

end Settings
end ParseGoal
