import ParseGoal.Goal.Named
import ParseGoal.Path

/-! What a command line asks for, the commands that it may name, and their options. -/
namespace ParseGoal

/-- The form of an answer. -/
inductive Format where
  | table
  | json
  | plain
  deriving DecidableEq

namespace Format

/-- The word for a form. -/
def name : Format → String
  | .table => "table"
  | .json => "json"
  | .plain => "plain"

/-- Only the exact words are read back. -/
def ofName? (text : String) : Option Format := [table, json, plain].find? (·.name = text)

end Format

/-- What a command line asks to be done. -/
inductive Command where
  | resolve (paths : List Path) (goal : Option Goal) (order : List Goal) (noCache : Bool)
      (format : Format)
  | cacheList (format : Format)
  | cacheRemove (path : Path)
  | cacheClear (yes : Bool)
  | cachePath
  /-- No subcommand of `config` is named. -/
  | config
  | configShow
  | configPath
  | configInit (force : Bool)
  deriving DecidableEq

/-- All that a command line says. -/
structure CommandLine where
  verbose : Nat
  config : Option Path
  cacheDirectory : Option Path
  command : Command
  deriving DecidableEq

namespace CommandLine

/-- The commands: each has its own options, and some have commands below them. -/
inductive Level where
  | top
  | resolve
  | cache
  | cacheList
  | cacheRemove
  | cacheClear
  | cachePath
  | config
  | configShow
  | configPath
  | configInit
  deriving DecidableEq

/-- The options of all commands. -/
inductive Name where
  | verbose
  | config
  | cacheDirectory
  | goal
  | order
  | noCache
  | format
  | yes
  | force
  | help
  | version
  deriving DecidableEq

namespace Name

/-- The name after two dashes. -/
def long : Name → String
  | verbose => "verbose"
  | config => "config"
  | cacheDirectory => "cache-dir"
  | goal => "goal"
  | order => "order"
  | noCache => "no-cache"
  | format => "format"
  | yes => "yes"
  | force => "force"
  | help => "help"
  | version => "version"

/-- The letter after one dash. -/
def short? : Name → Option Char
  | verbose => some 'v'
  | config => some 'c'
  | goal => some 'g'
  | format => some 'f'
  | yes => some 'y'
  | force => some 'f'
  | help => some 'h'
  | version => some 'V'
  | cacheDirectory => none
  | order => none
  | noCache => none

/-- Whether the option has a value. -/
def takesValue : Name → Bool
  | config => true
  | cacheDirectory => true
  | goal => true
  | order => true
  | format => true
  | _ => false

/-- The variable whose value counts where the option is not given. -/
def fallback? : Name → Option String
  | config => some "GOALPOST_CONFIG"
  | cacheDirectory => some "GOALPOST_CACHE_DIR"
  | _ => none

end Name

/-- How many paths a command takes. -/
inductive Arity where
  | none
  | one
  | many
  deriving DecidableEq

namespace Level

/-- The options that every command has. -/
def everywhere : List Name := [.verbose, .config, .cacheDirectory, .help, .version]

/-- The options of a command. -/
def options : Level → List Name
  | resolve => [.goal, .order, .noCache, .format] ++ everywhere
  | cacheList => .format :: everywhere
  | cacheClear => .yes :: everywhere
  | configInit => .force :: everywhere
  | _ => everywhere

/-- The commands below a command. -/
def commands : Level → List (String × Level)
  | top => [("resolve", resolve), ("cache", cache), ("config", config)]
  | cache => [("list", cacheList), ("remove", cacheRemove), ("clear", cacheClear), ("path", cachePath)]
  | config => [("show", configShow), ("path", configPath), ("init", configInit)]
  | _ => []

/-- Whether one of the commands below must be named. -/
def needsCommand (level : Level) : Bool := level = top || level = cache

/-- How many paths a command takes. -/
def arity : Level → Arity
  | resolve => .many
  | cacheRemove => .one
  | _ => .none

/-- The full name of a command. -/
def title : Level → String
  | top => "goalpost"
  | resolve => "goalpost-resolve"
  | cache => "goalpost-cache"
  | cacheList => "goalpost-cache-list"
  | cacheRemove => "goalpost-cache-remove"
  | cacheClear => "goalpost-cache-clear"
  | cachePath => "goalpost-cache-path"
  | config => "goalpost-config"
  | configShow => "goalpost-config-show"
  | configPath => "goalpost-config-path"
  | configInit => "goalpost-config-init"

end Level

/-- Why a command line asks for nothing that can be done. -/
inductive Refused where
  /-- Help is asked for. -/
  | help
  /-- The version of a command is asked for. -/
  | version (level : Level)
  /-- Nothing is said where a command is needed. -/
  | nothingSaid
  | missingCommand
  | unknownCommand
  | unknownArgument
  | givenTwice
  | invalidValue
  /-- A value names no goal. -/
  | invalidGoal
  | valueForFlag
  | missingPath
  deriving DecidableEq

end CommandLine
end ParseGoal
