import ParseGoal.Cache.Store
import ParseGoal.Ecma.Probe
import ParseGoal.Program.Interleave
import ParseGoal.Resolution
import ParseGoal.Settings

/-!
Resolving files: a file is loaded, its goal is declared or remembered or neither, candidates are
tried, and the decision is remembered. A failure is never remembered, and a record of a file that
parses under no goal is dropped.
-/
namespace ParseGoal

/-- The key of a file that is there: its canonical path. -/
def SourceUnit.keyOf (path : Path) : Action String :=
  Action.orFail (Program.request (.canonicalize path)) fun
    | .missing => .pathNotFound path
    | refusal => .io s!"resolving path {path}" refusal.reason

/-- Loads a file under its canonical path. -/
def SourceUnit.load (path : Path) : Action SourceUnit := do
  let key ← keyOf path
  let bytes ← Action.doing s!"reading source {key}" (Program.request (.readFile key))
  return ⟨key, bytes⟩

/-- What was remembered of a source before it was resolved. -/
inductive CacheStatus where
  /-- Nothing is remembered at all. -/
  | disabled
  /-- There is no record. -/
  | miss
  /-- There is a record of other content. -/
  | stale
  /-- There is a record of this content. -/
  | hit
  deriving DecidableEq

/-- The word for it. -/
def CacheStatus.name : CacheStatus → String
  | .disabled => "disabled"
  | .miss => "miss"
  | .stale => "stale"
  | .hit => "hit"

/-- What resolving a file found. -/
structure Outcome where
  key : String
  resolution : Resolution
  cache : CacheStatus
  deriving DecidableEq

/-- How files are resolved. -/
structure FileResolver where
  resolver : Resolver := {}
  grammar : Grammar Program
  /-- Decisions are remembered here, if anywhere. -/
  cache : Option Cache := none
  declaration : Declaration := .disabled
  /-- How many files are worked on at once; zero means all of them. -/
  jobs : Nat := 0

namespace FileResolver

/-- The probe with a deadline for each attempt, or without one if the limit is zero. -/
def timedProbe (limit : Nat) : Grammar Program :=
  if limit = 0 then Ecma.probe.lift
  else Ecma.probe.lift.limited limit fun source goal => Program.request (.fate limit source goal)

/-- Resolves files as the settings say; the records are in a given directory or where the settings say. -/
def ofSettings (settings : Settings) (environment : Environment) (directory : Option Path) :
    Except Error FileResolver := do
  let order ← settings.goalOrder
  return {
    resolver := { order := order }
    grammar := timedProbe settings.policy.timeLimit.toNat
    cache :=
      if settings.caching.enabled then some ⟨settings.cacheDirectory environment directory⟩ else none
    declaration := settings.declaration
    jobs := settings.policy.jobs.toNat }

/-- The same, but with another order of goals, if one is given. -/
def withOrder (r : FileResolver) (preferred : List Goal) : Except Error FileResolver :=
  if preferred = [] then .ok r
  else do return { r with resolver := { order := ← GoalOrder.ofPreferred preferred } }

/-- The same, but nothing is remembered. -/
def withoutCache (r : FileResolver) : FileResolver := { r with cache := none }

/-- The goal that is remembered for a source, if it still holds, and what was remembered. -/
def remembered (r : FileResolver) (unit : SourceUnit) : Program (Option Goal × CacheStatus) := do
  match r.cache with
  | none => return (none, .disabled)
  | some cache =>
    match ← cache.lookup unit.key with
    | none => return (none, .miss)
    | some record =>
      return if record.isValidFor unit.fingerprint then (some record.goal, .hit) else (none, .stale)

/-- A declared goal goes before a remembered one. -/
def leadOf (declared found : Option Goal) : Lead :=
  match declared, found with
  | some goal, _ => .declared goal
  | none, some goal => .cached goal
  | none, none => .ambiguous

/-- Remembers a decision, if anything is remembered; that this fails is no failure. -/
def remember (r : FileResolver) (unit : SourceUnit) (goal : Goal) : Program Unit := do
  if let some cache := r.cache then
    let _ ← (cache.store unit.key goal unit.fingerprint).run

/-- Drops the record of a source; that this fails is no failure. -/
def forget (r : FileResolver) (unit : SourceUnit) : Program Unit := do
  if let some cache := r.cache then
    let _ ← (cache.remove unit.key).run

/-- Whether a record was found. -/
def hasRecord (status : CacheStatus) : Bool := status = .hit ∨ status = .stale

/-- Resolves a source that is loaded, under what is declared for it. -/
def resolveUnit (r : FileResolver) (unit : SourceUnit) (declared : Option Goal) :
    Action Outcome := do
  let (found, status) ← Action.ofProgram (r.remembered unit)
  let result ← Action.ofProgram
    (r.resolver.resolve r.grammar unit.key unit.bytes (leadOf declared found))
  match result with
  | .ok resolution =>
    Action.ofProgram (r.remember unit resolution.goal)
    return ⟨unit.key, resolution, status⟩
  | .error e =>
    if e.isRejection && hasRecord status then Action.ofProgram (r.forget unit)
    throw e

/-- Resolves a file. A forced goal counts as declared, and then no declaration is looked for. -/
def resolve (r : FileResolver) (path : Path) (forced : Option Goal) : Action Outcome := do
  let unit ← SourceUnit.load path
  let declared ← match forced with
    | some goal => pure (some goal)
    | none => r.declaration.lookup unit.key
  r.resolveUnit unit declared

/-- How many files of a batch are worked on at once. -/
def batchLimit (r : FileResolver) (paths : List Path) : Nat :=
  if r.jobs = 0 then paths.length else r.jobs

/-- Resolves files in turns; the results are in the order of the paths. -/
def resolveAll (r : FileResolver) (turns : List Nat) (paths : List Path) (forced : Option Goal) :
    Program (List (Path × Except Error Outcome)) := do
  let slots := paths.map fun path => Program.Slot.waiting (r.resolve path forced).run
  let results ← Program.interleave (r.batchLimit paths) turns slots
  return paths.zip results

end FileResolver
end ParseGoal
