import ParseGoal.Path

/-! The variables that a program is started with, and the places that they name. -/
namespace ParseGoal

/-- Variables and their values. -/
structure Environment where
  values : List (String × String)

namespace Environment

/-- The value of a variable. -/
def get? (e : Environment) (name : String) : Option String := e.values.lookup name

/-- The home directory. -/
def home? (e : Environment) : Option Path := (e.get? "HOME").filter (· ≠ "")

/-- A directory that a variable names if its value is absolute. -/
def named? (e : Environment) (name : String) : Option Path := (e.get? name).filter Path.isAbsolute

/-- A directory that a variable names, or else one below the home directory. -/
def directory? (e : Environment) (name : String) (below : Path) : Option Path :=
  (e.named? name).or (e.home?.map (Path.join · below))

/-- Where the settings are unless another place is given. -/
def settingsFile (e : Environment) : Path :=
  (((e.directory? "XDG_CONFIG_HOME" ".config").getD ".").join "goalpost").join "config.toml"

/-- Where the records are unless another place is given. -/
def cacheDirectory (e : Environment) : Path :=
  let base := (e.directory? "XDG_CACHE_HOME" ".cache").or
    (e.directory? "XDG_DATA_HOME" ".local/share")
  ((base.getD ".").join "goalpost").join "goals"

end Environment
end ParseGoal
