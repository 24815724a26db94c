import ParseGoal.Console
import ParseGoal.Proofs.World

/-! A command line that can be read ends as its command does: the exit code says whether it failed. -/
namespace ParseGoal.Console

variable {environment : Environment} {words : List String} {line : CommandLine} {w w' : World}

theorem run_ok (hread : CommandLine.read environment words = .ok line)
    (h : w.act (performLine environment line) = (.ok (), w')) :
    w.run (run environment words) = (0, w') := by
  have hrun : w.run (performLine environment line).run = (.ok (), w') := h
  unfold run
  rw [hread]
  dsimp only
  rw [World.run_bind, hrun]
  rfl

theorem run_error {e : Error} (hread : CommandLine.read environment words = .ok line)
    (h : w.act (performLine environment line) = (.error e, w')) :
    w.run (run environment words) = (1, (w'.run (reportError e)).2) := by
  have hrun : w.run (performLine environment line).run = (.error e, w') := h
  unfold run
  rw [hread]
  dsimp only
  rw [World.run_bind, hrun]
  dsimp only
  rw [World.run_bind, World.run_pure]

/-- Where a command line is granted all that it asks for, so is its command. -/
theorem grants_performLine (hread : CommandLine.read environment words = .ok line)
    (h : w.grants (run environment words) = true) :
    w.grants (performLine environment line).run = true := by
  unfold run at h
  rw [hread] at h
  dsimp only at h
  rw [World.grants_bind] at h
  exact (Bool.and_eq_true_iff.1 h).1

/-- A report of an error: it is written to the reports, and nothing else changes. -/
theorem run_reportError (e : Error) (w : World) : (w.run (reportError e)).2 = { w with
    reports := w.reports ++ (s!"Error: {e.message}" ++ "\n") ++
      (e.hint?.map fun hint => s!"Hint: {hint}" ++ "\n").getD "" } := by
  unfold reportError
  rw [World.run_bind]
  cases e.hint? with
  | none =>
    change World.mk .. = World.mk ..
    rw [Option.map_none, Option.getD_none, String.append_empty]
  | some hint => rfl

/-- The file that a command line reads its settings from. -/
def settingsPath (environment : Environment) (line : CommandLine) : Path :=
  line.config.getD environment.settingsFile

/-- What a command is carried out with. -/
def contextOf (environment : Environment) (line : CommandLine) (settings : Settings) : Context :=
  ⟨environment, settingsPath environment line, settings, line.cacheDirectory⟩

/-- The settings are loaded first, whatever the command is. -/
theorem performLine_eq (environment : Environment) (line : CommandLine) :
    performLine environment line = Settings.load (settingsPath environment line) >>= fun settings =>
      perform (contextOf environment line settings) line.command := rfl

/-- Success means that the command has come to its end. -/
theorem act_of_exit_zero (hread : CommandLine.read environment words = .ok line)
    (h : (w.run (run environment words)).1 = 0) :
    w.act (performLine environment line) = (.ok (), (w.run (run environment words)).2) := by
  rcases hact : w.act (performLine environment line) with ⟨answer, after⟩
  cases answer with
  | ok _ => rw [run_ok hread hact]
  | error e =>
    rw [run_error hread hact] at h
    cases h

end ParseGoal.Console
