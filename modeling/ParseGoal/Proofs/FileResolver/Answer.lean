import ParseGoal.FileResolver
import ParseGoal.Proofs.Cache.Lookup
import ParseGoal.Proofs.Program.Sight
import ParseGoal.Proofs.Resolution

/-!
The answer to a request to resolve a file, put together from what is read: the source, what is
declared for it, the record of its key, and the verdicts of the grammar.
-/
namespace ParseGoal

namespace Grammar

/-- A grammar that leaves every world as it is. -/
def IsQuiet (grammar : Grammar Program) : Prop :=
  ∀ (source : Bytes) (goal : Goal), (grammar.attempt source goal).IsQuiet

/-- The verdicts of a grammar in one world. -/
def within (grammar : Grammar Program) (w : World) : Grammar Id where
  name := grammar.name
  attempt source goal := (w.run (grammar.attempt source goal)).1

theorem run_attempt {grammar : Grammar Program} (h : grammar.IsQuiet) (w : World) (source : Bytes)
    (goal : Goal) : w.run (grammar.attempt source goal) = ((grammar.within w).attempt source goal, w) :=
  (h source goal).run_eq w

theorem isQuiet_lift (grammar : Grammar Id) : (grammar.lift : Grammar Program).IsQuiet :=
  fun _ _ _ => rfl

theorem isQuiet_limited {grammar : Grammar Program} (h : grammar.IsQuiet) (limit : Nat) :
    (grammar.limited limit fun source goal => Program.request (.fate limit source goal)).IsQuiet := by
  intro source goal
  exact .bind (h source goal) fun answer => .bind (fun _ => rfl) fun fate => .pure _

theorem isQuiet_timedProbe (limit : Nat) : (FileResolver.timedProbe limit).IsQuiet := by
  unfold FileResolver.timedProbe
  split_ifs
  · exact isQuiet_lift _
  · exact isQuiet_limited (isQuiet_lift _) limit

/-- A grammar whose verdicts depend on nothing in a world but how attempts end there. -/
def IsSteady (grammar : Grammar Program) : Prop :=
  ∀ w w' : World, w.fate = w'.fate → grammar.within w = grammar.within w'

theorem isSteady_lift (grammar : Grammar Id) : (grammar.lift : Grammar Program).IsSteady :=
  fun _ _ _ => rfl

theorem isSteady_limited (grammar : Grammar Id) (limit : Nat) :
    ((grammar.lift : Grammar Program).limited limit fun source goal =>
      Program.request (.fate limit source goal)).IsSteady := by
  intro w w' hfate
  have hverdicts (w : World) : ((grammar.lift : Grammar Program).limited limit fun source goal =>
      Program.request (.fate limit source goal)).within w = ⟨grammar.name, fun source goal =>
        (w.fate limit source goal).verdict limit (grammar.attempt source goal)⟩ := rfl
  rw [hverdicts, hverdicts, hfate]

theorem isSteady_timedProbe (limit : Nat) : (FileResolver.timedProbe limit).IsSteady := by
  unfold FileResolver.timedProbe
  split_ifs
  · exact isSteady_lift _
  · exact isSteady_limited _ limit

end Grammar

namespace Resolver

variable (r : Resolver) (key : String) (source : Bytes) (lead : Lead)

theorem tryEach_recorded (grammar : Grammar Id) (tried : List Goal) (candidates : List Candidate)
    (calls : List Call) :
    ((r.tryEach grammar.recorded key source lead tried candidates).run calls).1 =
      r.tryEach grammar key source lead tried candidates := by
  induction candidates generalizing tried calls with
  | nil => rfl
  | cons candidate rest ih =>
    cases hverdict : grammar.attempt (r.bootstrap source candidate.goal) candidate.goal with
    | ok =>
      simp only [tryEach, Grammar.recorded, StateT.run_bind, hverdict]
      rfl
    | error failure =>
      cases hterminal : candidate.terminal with
      | true =>
        simp only [tryEach, Grammar.recorded, StateT.run_bind, hverdict, hterminal]
        rfl
      | false =>
        have hrest := ih (tried ++ [candidate.goal])
          (calls ++ [⟨candidate.goal, r.bootstrap source candidate.goal⟩])
        simp only [tryEach, Grammar.recorded, StateT.run_bind, hverdict, hterminal]
        exact hrest

theorem run_tryEach {grammar : Grammar Program} (hquiet : grammar.IsQuiet) (w : World)
    (tried : List Goal) (candidates : List Candidate) :
    w.run (r.tryEach grammar key source lead tried candidates) =
      (r.tryEach (grammar.within w) key source lead tried candidates, w) := by
  induction candidates generalizing tried with
  | nil => rfl
  | cons candidate rest ih =>
    have hattempt := Grammar.run_attempt hquiet w (r.bootstrap source candidate.goal) candidate.goal
    cases hverdict : (grammar.within w).attempt (r.bootstrap source candidate.goal) candidate.goal with
    | ok =>
      rw [hverdict] at hattempt
      simp only [tryEach, World.run_bind, hattempt, hverdict]
      rfl
    | error failure =>
      rw [hverdict] at hattempt
      cases hterminal : candidate.terminal with
      | true =>
        simp only [tryEach, World.run_bind, hattempt, hverdict, hterminal]
        rfl
      | false =>
        simp only [tryEach, World.run_bind, hattempt, hverdict, hterminal]
        exact ih (tried ++ [candidate.goal])

theorem run_resolve {grammar : Grammar Program} (hquiet : grammar.IsQuiet) (w : World) :
    w.run (r.resolve grammar key source lead) =
      (r.resolve (grammar.within w) key source lead, w) :=
  run_tryEach r key source lead hquiet w [] _

variable {r source lead} {grammar : Grammar Id}

theorem resolve_eq_ok {before : List Goal} {goal : Goal}
    (h : r.IsFirst grammar source (r.goals lead) before goal) :
    r.resolve grammar key source lead = Except.ok ⟨goal, before ++ [goal], lead⟩ := by
  have hrun := congrArg Prod.fst (resolve_of_isFirst key h)
  rwa [resolve, tryEach_recorded] at hrun

theorem resolve_eq_error (hr : r.order.Built)
    (h : ∀ goal ∈ r.goals lead, ¬ r.Accepts grammar source goal) :
    ∃ last position reason, r.resolve grammar key source lead =
      Except.error (.rejected last position reason lead.isDeclared) := by
  obtain ⟨last, failure, -, -, hrun⟩ := resolve_of_rejects hr key h
  have hfst := congrArg Prod.fst hrun
  rw [resolve, tryEach_recorded] at hfst
  exact ⟨last, failure.position, failure.reason, hfst⟩

theorem isFirst_of_resolve (hr : r.order.Built) {found : Resolution}
    (h : r.resolve grammar key source lead = Except.ok found) :
    ∃ before, r.IsFirst grammar source (r.goals lead) before found.goal := by
  rcases exists_isFirst_or r grammar source (r.goals lead) with
    ⟨before, goal, hfirst⟩ | hnone
  · rw [resolve_eq_ok key hfirst] at h
    cases h
    exact ⟨before, hfirst⟩
  · obtain ⟨last, position, reason, herror⟩ := resolve_eq_error key hr hnone
    rw [herror] at h
    cases h

end Resolver

namespace Program.AsksOnly

theorem readText (path : Path) : (Program.readText path).AsksOnly Request.isReading := by
  refine .bind (.request rfl) fun content => ?_
  split
  · exact .pure _
  · split <;> exact .pure _

theorem load (path : Path) : AsksOnly Request.isReading (SourceUnit.load path).run :=
  .act_bind (.orFail (.request rfl) _) fun _ => .act_bind (.orFail (.request rfl) _) fun _ => .pure _

theorem findIn (d : Declaration) (directories : List Path) :
    AsksOnly Request.isReading (d.findIn directories).run := by
  induction directories with
  | nil => exact .pure _
  | cons directory rest ih =>
    refine .act_bind (.ofProgram (.request rfl)) fun found => ?_
    split
    · exact .pure _
    · exact ih
    · exact ih
    · exact .pure _

theorem lookup (d : Declaration) (path : Path) : AsksOnly Request.isReading (d.lookup path).run := by
  unfold Declaration.lookup
  generalize (if d.extensions then Declaration.goalOfExtension? path else none) = extension
  split_ifs
  · cases extension with
    | some goal => exact .pure _
    | none =>
      refine .act_bind ?_ fun manifest => ?_
      · unfold Declaration.nearest
        split
        · exact findIn d _
        · exact .pure _
      · cases manifest with
        | none => exact .pure _
        | some manifest => exact .act_bind (.orFail (readText _) _) fun _ => .pure _
  · exact .pure _

end Program.AsksOnly

namespace World

variable (w : World)

/-- The source that a path leads to, or why there is none. -/
def source (path : Path) : Except Error SourceUnit := (w.act (SourceUnit.load path)).1

/-- The goal that is declared for a path, or why that cannot be told. -/
def declared (d : Declaration) (path : Path) : Except Error (Option Goal) := (w.act (d.lookup path)).1

theorem act_load (path : Path) : w.act (SourceUnit.load path) = (w.source path, w) :=
  (Program.AsksOnly.load path).isQuiet.run_eq w

theorem act_lookup (d : Declaration) (path : Path) : w.act (d.lookup path) = (w.declared d path, w) :=
  (Program.AsksOnly.lookup d path).isQuiet.run_eq w

end World

namespace FileResolver

variable (r : FileResolver) (w : World) (unit : SourceUnit)

/-- The goal that is remembered for a source, and what was found of it. -/
def recalled : Option Goal × CacheStatus := (w.run (r.remembered unit)).1

theorem run_remembered : w.run (r.remembered unit) = (r.recalled w unit, w) := by
  refine Program.IsQuiet.run_eq (p := r.remembered unit) ?_ w
  unfold remembered
  split
  · exact .pure _
  · refine .bind (Cache.isQuiet_lookup _ _) fun record => ?_
    split <;> exact .pure _

theorem recalled_of_none (h : r.cache = none) : r.recalled w unit = (none, .disabled) := by
  simp [recalled, remembered, h]

theorem recalled_of_some {c : Cache} (h : r.cache = some c) : r.recalled w unit =
    match c.recordIn w unit.key with
    | none => (none, .miss)
    | some record =>
      if record.fingerprint = unit.fingerprint then (some record.goal, .hit) else (none, .stale) := by
  simp only [recalled, remembered, h, World.run_bind, Cache.run_lookup]
  cases c.recordIn w unit.key with
  | none => rfl
  | some record => simp [Record.isValidFor]

/-- The goal that is declared for a source, a forced one before any other. -/
def declaredIn (forced : Option Goal) : Except Error (Option Goal) :=
  match forced with
  | some goal => .ok (some goal)
  | none => w.declared r.declaration unit.key

/-- What the resolver answers for a source, from what is declared and remembered. -/
def answer (declared : Option Goal) : Except Error Resolution :=
  r.resolver.resolve (r.grammar.within w) unit.key unit.bytes (leadOf declared (r.recalled w unit).1)

theorem act_resolve (path : Path) (forced : Option Goal) : w.act (r.resolve path forced) =
    match w.source path with
    | .error e => (.error e, w)
    | .ok unit =>
      match r.declaredIn w unit forced with
      | .error e => (.error e, w)
      | .ok declared => w.act (r.resolveUnit unit declared) := by
  unfold resolve
  rw [World.act_bind, World.act_load]
  cases w.source path with
  | error e => rfl
  | ok unit =>
    cases forced with
    | some goal => exact World.act_bind_ok w _ (World.act_pure w (some goal))
    | none =>
      change w.act (r.declaration.lookup unit.key >>= _) = _
      rw [World.act_bind, World.act_lookup]
      cases h : w.declared r.declaration unit.key <;> simp [declaredIn, h]

theorem act_resolveUnit (hquiet : r.grammar.IsQuiet) (declared : Option Goal) :
    w.act (r.resolveUnit unit declared) =
      match r.answer w unit declared with
      | .ok found => (.ok ⟨unit.key, found, (r.recalled w unit).2⟩, (w.run (r.remember unit found.goal)).2)
      | .error e => (.error e,
          if e.isRejection && hasRecord (r.recalled w unit).2 then (w.run (r.forget unit)).2 else w) := by
  unfold resolveUnit
  rw [World.act_bind, World.act_ofProgram, run_remembered]
  dsimp only
  rw [World.act_bind, World.act_ofProgram, Resolver.run_resolve _ _ _ _ hquiet]
  change w.act (match r.answer w unit declared with
    | .ok resolution => _
    | .error e => _) = _
  cases r.answer w unit declared with
  | ok found =>
    dsimp only
    rw [World.act_bind, World.act_ofProgram]
    rfl
  | error e =>
    dsimp only
    cases e.isRejection && hasRecord (r.recalled w unit).2 with
    | true =>
      rw [if_pos rfl, World.act_bind, World.act_ofProgram]
      rfl
    | false => rfl

variable {r w unit}

/-- The answer is that of the resolver, whatever is stored or dropped afterwards. -/
theorem act_resolve_fst (hquiet : r.grammar.IsQuiet) {path : Path} (hsource : w.source path = .ok unit)
    {forced declared : Option Goal} (hdeclared : r.declaredIn w unit forced = .ok declared) :
    (w.act (r.resolve path forced)).1 =
      (r.answer w unit declared).map fun found => ⟨unit.key, found, (r.recalled w unit).2⟩ := by
  rw [act_resolve, hsource]
  dsimp only
  rw [hdeclared]
  dsimp only
  rw [act_resolveUnit r w unit hquiet]
  cases r.answer w unit declared <;> rfl

end FileResolver
end ParseGoal
