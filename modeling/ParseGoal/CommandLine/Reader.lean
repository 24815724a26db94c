import ParseGoal.CommandLine
import ParseGoal.Environment

/-!
Reading command lines. The words are taken in order. An option whose value may still come is kept
open, and is settled only when another option or path comes, or the words end; then its value is
checked. Each command settles its own options, the innermost first.
-/
namespace ParseGoal.CommandLine

/-- What is known of the options and paths of one command. -/
structure Found where
  /-- How often the option stands there. -/
  verbose : Nat := 0
  config : Option Path := none
  /-- The value of `config` comes from the environment. -/
  configInherited : Bool := false
  cacheDirectory : Option Path := none
  /-- The value of `cacheDirectory` comes from the environment. -/
  cacheDirectoryInherited : Bool := false
  goal : Option Goal := none
  order : List Goal := []
  noCache : Bool := false
  format : Option Format := none
  yes : Bool := false
  force : Bool := false
  paths : List Path := []

/-- What is still open. -/
inductive Pending where
  /-- An option, and its value if it has come. -/
  | option (name : Name) (value : Option String)
  | paths (values : List String)

/-- A command line that is being read. -/
structure Progress where
  found : Found := {}
  pending : Option Pending := none
  /-- The next word is a value of the open option, unless it looks like an option. -/
  awaiting : Bool := false
  /-- Two dashes have come, so that no word is an option any more. -/
  trailing : Bool := false

/-- A path must not be empty. -/
def pathValue (value : String) : Except Refused Path :=
  if value.isEmpty then .error .invalidValue else .ok value

/-- A goal. -/
def goalValue (value : String) : Except Refused Goal :=
  (Goal.parse value).mapError fun _ => .invalidGoal

/-- The pieces of a text between commas. -/
def commaPieces (text : List Char) : List String :=
  match text.takeWhile (· ≠ ','), _h : text.dropWhile (· ≠ ',') with
  | piece, [] => [String.ofList piece]
  | piece, _ :: rest => String.ofList piece :: commaPieces rest
termination_by text.length
decreasing_by
  have h := congrArg List.length (List.takeWhile_append_dropWhile (p := (· ≠ ',')) (l := text))
  rw [List.length_append, _h, List.length_cons] at h
  omega

/-- Goals with commas between them. -/
def orderValue (value : String) : Except Refused (List Goal) :=
  (commaPieces value.toList).mapM goalValue

/-- The word for a form. -/
def formatValue (value : String) : Except Refused Format :=
  match Format.ofName? value with
  | some format => .ok format
  | none => .error .invalidValue

/-- An option that may stand only once. -/
def once {α : Type} (known : Option α) (value : Except Refused α) : Except Refused (Option α) :=
  match known with
  | some _ => .error .givenTwice
  | none => value.map some

/-- A flag that may stand only once. -/
def flagOnce (known : Bool) : Except Refused Bool := if known then .error .givenTwice else .ok true

/-- Takes in an option with its value. -/
def Found.giveValue (f : Found) (value : String) : Name → Except Refused Found
  | .config => return { f with config := ← once f.config (pathValue value) }
  | .cacheDirectory => return { f with cacheDirectory := ← once f.cacheDirectory (pathValue value) }
  | .goal => return { f with goal := ← once f.goal (goalValue value) }
  | .order => return { f with order := f.order ++ (← orderValue value) }
  | .format => return { f with format := ← once f.format (formatValue value) }
  | _ => .error .valueForFlag

/-- Takes in a flag of a command. -/
def Found.giveFlag (f : Found) (level : Level) : Name → Except Refused Found
  | .verbose => .ok { f with verbose := min (f.verbose + 1) 255 }
  | .noCache => return { f with noCache := ← flagOnce f.noCache }
  | .yes => return { f with yes := ← flagOnce f.yes }
  | .force => return { f with force := ← flagOnce f.force }
  | .help => .error .help
  | .version => .error (.version level)
  | _ => .error .invalidValue

namespace Progress

/-- Takes in what is open. -/
def settle (p : Progress) : Except Refused Progress :=
  match p.pending with
  | none => .ok p
  | some (.option _ none) => .error .invalidValue
  | some (.option name (some value)) =>
    return { p with found := ← p.found.giveValue value name, pending := none }
  | some (.paths values) =>
    return { p with
      found := { p.found with paths := p.found.paths ++ (← values.mapM pathValue) }, pending := none }

/-- An option with its value in the same word. -/
def attach (p : Progress) (name : Name) (value : String) : Except Refused Progress := do
  let p ← p.settle
  return { p with found := ← p.found.giveValue value name, awaiting := false }

/-- An option whose value is to come. -/
def openOption (p : Progress) (name : Name) : Except Refused Progress := do
  return { ← p.settle with pending := some (.option name none), awaiting := true }

/-- A flag. -/
def flag (p : Progress) (level : Level) (name : Name) : Except Refused Progress := do
  let p ← p.settle
  return { p with found := ← p.found.giveFlag level name, awaiting := false }

/-- The letters after one dash: flags, and then perhaps an option with its value. -/
def letters (level : Level) (p : Progress) : List Char → Except Refused Progress
  | [] => .ok p
  | c :: rest =>
    match level.options.find? (·.short? = some c) with
    | none => .error .unknownArgument
    | some name =>
      if name.takesValue then
        match rest with
        | [] => p.openOption name
        | '=' :: value => p.attach name (String.ofList value)
        | value => p.attach name (String.ofList value)
      else do letters level (← p.flag level name) rest

/-- The text after two dashes: a name, and perhaps a value after an equals sign. -/
def long (level : Level) (p : Progress) (text : List Char) : Except Refused Progress :=
  let name := String.ofList (text.takeWhile (· ≠ '='))
  let value? := match text.dropWhile (· ≠ '=') with
    | _ :: value => some (String.ofList value)
    | [] => none
  match level.options.find? (·.long = name) with
  | none => .error .unknownArgument
  | some name =>
    match name.takesValue, value? with
    | true, some value => p.attach name value
    | true, none => p.openOption name
    | false, some _ => .error .valueForFlag
    | false, none => p.flag level name

/-- A word that is neither an option nor the value of one. -/
def positional (level : Level) (p : Progress) (word : String) : Except Refused Progress :=
  match level.arity with
  | .many =>
    match p.pending with
    | some (.paths values) => .ok { p with pending := some (.paths (values ++ [word])) }
    | _ => do return { ← p.settle with pending := some (.paths [word]), awaiting := false }
  | .one =>
    if p.found.paths = [] ∧ !(p.pending matches some (.paths _)) then do
      return { ← p.settle with pending := some (.paths [word]), awaiting := false }
    else .error .unknownArgument
  | .none =>
    if level.commands = [] ∨ (p.trailing ∧ (level.commands.any (·.1 = word) ∨ word = "help")) then
      .error .unknownArgument
    else .error .unknownCommand

/-- A word that names no command. -/
def word (level : Level) (p : Progress) (word : String) : Except Refused Progress :=
  if p.trailing then p.positional level word
  else
    match word.toList with
    | ['-', '-'] => .ok { p with trailing := true }
    | '-' :: '-' :: text => p.long level text
    | '-' :: c :: text => p.letters level (c :: text)
    | _ =>
      match p.awaiting, p.pending with
      | true, some (.option name none) =>
        .ok { p with pending := some (.option name (some word)), awaiting := false }
      | _, _ => p.positional level word

/-- The command that a word names, if words may name commands here. -/
def command? (level : Level) (p : Progress) (word : String) : Option Level :=
  if p.trailing || p.awaiting then none else level.commands.lookup word

/-- Whether a word asks for help on the commands here. -/
def asksForHelp (level : Level) (p : Progress) (word : String) : Bool :=
  !(p.trailing || p.awaiting) && level.commands ≠ [] && word = "help"

end Progress

/-- The words after `help` name a command below a command. -/
def helpOn (level : Level) : List String → Refused
  | [] => .help
  | ["help"] => if level.commands = [] then .unknownCommand else .help
  | word :: rest =>
    match level.commands.lookup word with
    | some below => helpOn below rest
    | none => .unknownCommand

/-- Takes in the variables of options that are not given. -/
def Found.inherit (f : Found) (environment : Environment) : Except Refused Found := do
  let f ← match f.config, Name.config.fallback?.bind environment.get? with
    | none, some value => do
      let path ← pathValue value
      pure { f with config := some path, configInherited := true }
    | _, _ => pure f
  match f.cacheDirectory, Name.cacheDirectory.fallback?.bind environment.get? with
  | none, some value => do
    let path ← pathValue value
    return { f with cacheDirectory := some path, cacheDirectoryInherited := true }
  | _, _ => return f

/-- Whether nothing is said at all. -/
def Found.isEmpty (f : Found) : Bool := f.verbose = 0 && f.config.isNone && f.cacheDirectory.isNone

/-- Settles a command when its words are over; `below` says that a command below it is named. -/
def finish (environment : Environment) (level : Level) (p : Progress) (below : Bool) :
    Except Refused Found := do
  let p ← p.settle
  let f ← p.found.inherit environment
  if level.needsCommand && !below then .error (if f.isEmpty then .nothingSaid else .missingCommand)
  else if level.arity ≠ .none ∧ f.paths = [] then .error .missingPath
  else .ok f

/-- The commands that some words name, the outermost first, each with its options. -/
def readFrom (environment : Environment) (level : Level) (p : Progress) :
    List String → Except Refused (List (Level × Found))
  | [] => do return [(level, ← finish environment level p false)]
  | word :: rest =>
    if p.asksForHelp level word then .error (helpOn level rest)
    else
      match p.command? level word with
      | some below => do
        let commands ← readFrom environment below {} rest
        return (level, ← finish environment level p true) :: commands
      | none => do readFrom environment level (← p.word level word) rest

/-- The last value that is given, or else the last that comes from the environment. -/
def innermost (values : List (Option Path × Bool)) : Option Path :=
  let given := values.filterMap fun (value, inherited) => if inherited then none else value
  (given.getLast?).or ((values.filterMap (·.1)).getLast?)

/-- The last number that is not zero. -/
def lastCount (counts : List Nat) : Nat := ((counts.filter (· ≠ 0)).getLast?).getD 0

/-- What a command asks for. -/
def commandOf (level : Level) (f : Found) : Except Refused Command :=
  let format := f.format.getD .table
  match level, f.paths with
  | .resolve, paths => .ok (.resolve paths f.goal f.order f.noCache format)
  | .cacheList, _ => .ok (.cacheList format)
  | .cacheRemove, path :: _ => .ok (.cacheRemove path)
  | .cacheRemove, [] => .error .missingPath
  | .cacheClear, _ => .ok (.cacheClear f.yes)
  | .cachePath, _ => .ok .cachePath
  | .config, _ => .ok .config
  | .configShow, _ => .ok .configShow
  | .configPath, _ => .ok .configPath
  | .configInit, _ => .ok (.configInit f.force)
  | .top, _ => .error .missingCommand
  | .cache, _ => .error .missingCommand

/-- What a command line asks for. Of an option that several commands have, the innermost value counts. -/
def read (environment : Environment) (words : List String) : Except Refused CommandLine := do
  let commands ← readFrom environment .top {} words
  let founds := commands.map (·.2)
  let (level, found) := commands.getLast?.getD (.top, {})
  return {
    verbose := lastCount (founds.map (·.verbose))
    config := innermost (founds.map fun f => (f.config, f.configInherited))
    cacheDirectory := innermost (founds.map fun f => (f.cacheDirectory, f.cacheDirectoryInherited))
    command := ← commandOf level found }

end ParseGoal.CommandLine
