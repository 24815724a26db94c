import ParseGoal.Proofs.Console.Run
import ParseGoal.Proofs.Settings.RoundTrip

/-!
Writing the default settings over a file. The file is loaded before anything else is done, so this works
where the file could be loaded already, and fails as the loading does where it could not.
-/
namespace ParseGoal.Console

variable {environment : Environment} {words : List String} {line : CommandLine} {w : World}
  {path : Path} {content : Bytes}

/-- The default settings are saved, and then it is said that they are. -/
def overwrite (path : Path) : Action Unit := do
  Settings.save {} path
  Action.ofProgram (Program.printLine s!"✓ Configuration initialized: {path}")

theorem act_initSettings (hread : w.disk.read w.cwd path = .ok content) :
    w.act (initSettings path true) = w.act (overwrite path) := by
  unfold initSettings
  rw [World.act_bind, World.act_ofProgram, Program.run_pathExists hread]
  rfl

theorem grants_initSettings (hread : w.disk.read w.cwd path = .ok content)
    (h : w.grants (initSettings path true).run = true) : w.grants (overwrite path).run = true := by
  unfold initSettings at h
  rw [World.grants_act_bind, World.act_ofProgram, Program.run_pathExists hread] at h
  exact (Bool.and_eq_true_iff.1 h).2

/-- What has been written over a file is loaded from it. -/
theorem load_of_overwrite (h : w.grants (overwrite path).run = true) :
    (w.act (overwrite path)).1 = .ok () ∧
      ((w.act (overwrite path)).2.act (Settings.load path)).1 = .ok {} := by
  unfold overwrite at h ⊢
  have horder : Settings.NamesOnce {} := by
    unfold Settings.NamesOnce
    decide
  have hsmall : Settings.HasSmallNumbers {} := by
    constructor <;> decide
  have hsave : w.grants (Settings.save {} path).run = true := by
    rw [World.grants_act_bind] at h
    exact (Bool.and_eq_true_iff.1 h).1
  obtain ⟨text, htext⟩ : ∃ text, Settings.text {} = .ok text := ⟨_, Settings.text_ok hsmall⟩
  obtain ⟨after, hact, hread⟩ := Settings.act_save htext hsave
  rw [World.act_bind_ok _ _ hact, World.act_ofProgram]
  refine ⟨rfl, ?_⟩
  -- The line that is printed changes nothing that is loaded.
  generalize hprinted : (World.run { w with disk := after } (Program.printLine _)).2 = printed
  have hdisk : printed.disk = after := by rw [← hprinted]; rfl
  have hcwd : printed.cwd = w.cwd := by rw [← hprinted]; rfl
  rw [← hdisk, ← hcwd] at hread
  rw [Settings.act_load hread, Utf8.toString?_ofString]
  exact Settings.ofContent_text horder htext

/-- A text that is not loaded is an error with the advice to write the default settings. -/
theorem hint?_of_ofContent {text : String} {e : Error} (h : Settings.ofContent path text = .error e) :
    e.hint? = some "Run: goalpost config init --force" := by
  unfold Settings.ofContent at h
  split at h
  · cases h
    rfl
  · split at h
    · cases h
      rfl
    · cases h

theorem act_performLine_force (hcommand : line.command = .configInit true) {settings : Settings}
    (hload : w.act (Settings.load (settingsPath environment line)) = (.ok settings, w)) :
    w.act (performLine environment line) = w.act (initSettings (settingsPath environment line) true) ∧
      w.grants (performLine environment line).run =
        (w.grants (Settings.load (settingsPath environment line)).run &&
          w.grants (initSettings (settingsPath environment line) true).run) := by
  rw [performLine_eq, hcommand]
  constructor
  · exact World.act_bind_ok _ _ hload
  · exact World.grants_bind_ok _ hload

/--
The command that writes the default settings over a file that is there. It succeeds, and the defaults are
loaded from then on, exactly where the file could be loaded before. Otherwise it fails with the error of
the loading and leaves the file, so that loading fails as it did; for a text, that error comes with the
advice to run this very command.
-/
theorem exit_of_init_force (environment : Environment) (words : List String) (line : CommandLine) (w : World)
    (content : Bytes) (hline : CommandLine.read environment words = .ok line)
    (hcommand : line.command = .configInit true)
    (hread : w.disk.read w.cwd (settingsPath environment line) = .ok content)
    (hgrants : w.grants (run environment words) = true) :
    match (w.act (Settings.load (settingsPath environment line))).1 with
    | .ok _ => (w.run (run environment words)).1 = 0 ∧
        ((w.run (run environment words)).2.act (Settings.load (settingsPath environment line))).1 = .ok {}
    | .error e => (w.run (run environment words)).1 = 1 ∧
        (w.run (run environment words)).2.disk = w.disk ∧
        ((w.run (run environment words)).2.act (Settings.load (settingsPath environment line))).1 = .error e ∧
        (∀ text, Utf8.toString? content = some text →
          e.hint? = some "Run: goalpost config init --force") := by
  have hload := Settings.act_load hread
  have hline' := grants_performLine hline hgrants
  cases hanswer : (w.act (Settings.load (settingsPath environment line))).1 with
  | ok settings =>
    have hloaded : w.act (Settings.load (settingsPath environment line)) = (.ok settings, w) := by
      rw [hload] at hanswer ⊢
      exact Prod.ext hanswer rfl
    obtain ⟨hact, hgranted⟩ := act_performLine_force hcommand hloaded
    rw [hgranted] at hline'
    have hwrite := grants_initSettings hread (Bool.and_eq_true_iff.1 hline').2
    obtain ⟨hok, hafter⟩ := load_of_overwrite hwrite
    rw [act_initSettings hread] at hact
    have hrun := run_ok hline (hact.trans (Prod.ext hok rfl))
    rw [hrun]
    exact ⟨rfl, hafter⟩
  | error e =>
    rw [hload] at hanswer
    have hfailed : w.act (performLine environment line) = (.error e, w) := by
      rw [performLine_eq, World.act_bind, hload, hanswer]
    rw [run_error hline hfailed, run_reportError]
    refine ⟨rfl, rfl, ?_, fun text htext => ?_⟩
    · generalize hreported : World.mk .. = reported
      have hdisk : reported.disk = w.disk := by rw [← hreported]
      have hcwd : reported.cwd = w.cwd := by rw [← hreported]
      rw [← hdisk, ← hcwd] at hread
      rw [Settings.act_load hread]
      exact hanswer
    · rw [htext] at hanswer
      exact hint?_of_ofContent hanswer

/-- A file whose order names a goal twice stays as it is. -/
theorem exit_of_init_force_repeated_goal :
    let environment : Environment := ⟨[]⟩
    let words := ["--config", "goalpost.toml", "config", "init", "--force"]
    let line : CommandLine := ⟨0, some "goalpost.toml", none, .configInit true⟩
    let content := Utf8.ofString "resolver.order = ['module', 'module']"
    let w : World := { disk := ⟨[(["goalpost.toml"], .file content)]⟩ }
    CommandLine.read environment words = .ok line ∧
      w.disk.read w.cwd (settingsPath environment line) = .ok content ∧
      w.grants (run environment words) = true ∧
      (w.run (run environment words)).1 = 1 ∧ (w.run (run environment words)).2.disk = w.disk := by
  intro environment words line content w
  have hline : CommandLine.read environment words = .ok line := by decide +kernel
  have hread : w.disk.read w.cwd (settingsPath environment line) = .ok content := by decide +kernel
  have hgrants : w.grants (run environment words) = true := by decide +kernel
  have hexit := exit_of_init_force environment words line w content hline rfl hread hgrants
  have hload : (w.act (Settings.load (settingsPath environment line))).1 =
      .error (.configInvalid "goalpost.toml" "Invalid goal order: goal 'module' listed more than once") := by
    decide +kernel
  rw [hload] at hexit
  exact ⟨hline, hread, hgrants, hexit.1, hexit.2.1⟩

/-- Not every file can be written over by the command that is advised for one that cannot be loaded. -/
theorem init_force_not_recovering : ¬ ∀ content : Bytes,
    let w : World := { disk := ⟨[(["goalpost.toml"], .file content)]⟩ }
    let after := w.run (run ⟨[]⟩ ["--config", "goalpost.toml", "config", "init", "--force"])
    after.1 = 0 ∧ (after.2.act (Settings.load "goalpost.toml")).1 = .ok {} := by
  intro h
  have hexit := (h (Utf8.ofString "resolver.order = ['module', 'module']")).1
  revert hexit
  decide +kernel

end ParseGoal.Console
