import ParseGoal.Declaration
import ParseGoal.Environment
import ParseGoal.Goal.Named

/-! Settings and their defaults. -/
namespace ParseGoal

namespace Settings

/-- Settings of the whole program. -/
structure General where
  /-- The form of log lines: `text` or `json`. -/
  logFormat : String := "text"
  deriving DecidableEq

/-- How sources are resolved. -/
structure Policy where
  /-- The goals to try for sources that declare none; goals that are not listed come after them. -/
  order : List Goal := Goal.all
  /-- Milliseconds for an attempt; zero means no limit. -/
  timeLimit : UInt64 := 0
  /-- How many files are worked on at once; zero means as many as the machine can. -/
  jobs : UInt64 := 0
  deriving DecidableEq

/-- How decisions are remembered. -/
structure Caching where
  enabled : Bool := true
  /-- The directory of the records, if it is not the usual one. -/
  directory : Option Path := none
  deriving DecidableEq

end Settings

/-- All settings. -/
structure Settings where
  general : Settings.General := {}
  policy : Settings.Policy := {}
  caching : Settings.Caching := {}
  declaration : Declaration := {}
  deriving DecidableEq

namespace Settings

/-- The order of goals that the settings ask for. -/
def goalOrder (s : Settings) : Except Error GoalOrder := GoalOrder.ofPreferred s.policy.order

/-- The directory of the records: the one given, or that of the settings, or the usual one. -/
def cacheDirectory (s : Settings) (environment : Environment) (given : Option Path) : Path :=
  (given.or s.caching.directory).getD environment.cacheDirectory

end Settings
end ParseGoal
