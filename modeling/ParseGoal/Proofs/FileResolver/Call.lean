import ParseGoal.Proofs.Cache.Store
import ParseGoal.Proofs.FileResolver.Answer

/-!
One call of a resolver with a cache: what is remembered of its source afterwards, and that nothing is
forgotten or remembered of any other.
-/
namespace ParseGoal

/-- An action that never fails with a rejection. -/
def Action.NeverRejects {α : Type} (a : Action α) : Prop :=
  ∀ (w : World) (e : Error), (w.act a).1 = .error e → e.isRejection = false

namespace Action.NeverRejects

variable {α β : Type}

theorem pure (a : α) : NeverRejects (Pure.pure a) := fun _ _ h => nomatch h

theorem throw {e : Error} (h : e.isRejection = false) :
    NeverRejects (MonadExcept.throw e : Action α) := by
  rintro w _ ⟨⟩
  exact h

theorem ofProgram (p : Program α) : (Action.ofProgram p).NeverRejects := by
  intro w e h
  rw [World.act_ofProgram] at h
  cases h

theorem ofExcept {result : Except Error α} (h : ∀ e, result = .error e → e.isRejection = false) :
    (Action.ofExcept result).NeverRejects := fun _ e he => h e he

theorem orFail (p : Program (Except Refusal α)) {failure : Refusal → Error}
    (h : ∀ refusal, (failure refusal).isRejection = false) :
    (Action.orFail p failure).NeverRejects := by
  intro w e he
  rw [World.act_orFail] at he
  cases hrun : (w.run p).1 with
  | error refusal =>
    rw [hrun] at he
    cases he
    exact h refusal
  | ok value =>
    rw [hrun] at he
    cases he

theorem bind {a : Action α} {f : α → Action β} (ha : a.NeverRejects)
    (hf : ∀ value, (f value).NeverRejects) : (a >>= f).NeverRejects := by
  intro w e h
  rw [World.act_bind] at h
  cases hact : (w.act a).1 with
  | error failure =>
    rw [hact] at h
    cases h
    exact ha w _ hact
  | ok value =>
    rw [hact] at h
    exact hf value _ e h

theorem load (path : Path) : (SourceUnit.load path).NeverRejects := by
  refine bind (orFail _ fun refusal => ?_) fun key => bind (orFail _ fun _ => rfl) fun _ => pure _
  cases refusal <;> rfl

theorem findIn (d : Declaration) (directories : List Path) : (d.findIn directories).NeverRejects := by
  induction directories with
  | nil => exact pure _
  | cons directory rest ih =>
    refine bind (ofProgram _) fun found => ?_
    split
    · exact pure _
    · exact ih
    · exact ih
    · exact throw rfl

theorem nearest (d : Declaration) (path : Path) : (d.nearest path).NeverRejects := by
  unfold Declaration.nearest
  split
  · exact findIn d _
  · exact pure _

theorem lookup (d : Declaration) (path : Path) : (d.lookup path).NeverRejects := by
  unfold Declaration.lookup
  generalize (if d.extensions then Declaration.goalOfExtension? path else none) = extension
  split_ifs
  · cases extension with
    | some goal => exact pure _
    | none =>
      refine bind (nearest d path) fun manifest => ?_
      cases manifest with
      | none => exact pure _
      | some manifest =>
        refine bind (orFail _ fun _ => rfl) fun content => ofExcept fun e he => ?_
        cases hgoal : Declaration.goalOfManifest d.field content with
        | error reason =>
          rw [hgoal] at he
          cases he
          rfl
        | ok goal =>
          rw [hgoal] at he
          cases he
  · exact pure _

end Action.NeverRejects

namespace FileResolver

variable {r : FileResolver} {c : Cache} {w : World} {unit : SourceUnit}

theorem isRejection_of_declaredIn {forced : Option Goal} {e : Error}
    (h : r.declaredIn w unit forced = .error e) : e.isRejection = false := by
  cases forced with
  | some goal => cases h
  | none => exact Action.NeverRejects.lookup _ _ w e h

theorem run_remember (hcache : r.cache = some c) (goal : Goal) :
    (w.run (r.remember unit goal)).2 = (w.act (c.store unit.key goal unit.fingerprint)).2 := by
  rw [remember, hcache]
  dsimp only
  rw [World.run_bind, World.run_pure, World.act]

theorem grants_remember (hcache : r.cache = some c) (goal : Goal) :
    w.grants (r.remember unit goal) = w.grants (c.store unit.key goal unit.fingerprint).run := by
  rw [remember, hcache]
  dsimp only
  rw [World.grants_bind, World.grants_pure, Bool.and_true]

theorem run_forget (hcache : r.cache = some c) :
    (w.run (r.forget unit)).2 = (w.act (c.remove unit.key)).2 := by
  rw [forget, hcache]
  dsimp only
  rw [World.run_bind, World.run_pure, World.act]

theorem grants_forget (hcache : r.cache = some c) :
    w.grants (r.forget unit) = w.grants (c.remove unit.key).run := by
  rw [forget, hcache]
  dsimp only
  rw [World.grants_bind, World.grants_pure, Bool.and_true]

/-- All that a call can do, with its answer and the world that it leaves. -/
inductive Called (r : FileResolver) (c : Cache) (w : World) (path : Path) (forced : Option Goal) :
    Except Error Outcome → World → Prop where
  | found {unit : SourceUnit} {declared : Option Goal} {resolution : Resolution}
      (hsource : w.source path = .ok unit) (hdeclared : r.declaredIn w unit forced = .ok declared)
      (hanswer : r.answer w unit declared = .ok resolution)
      (hstore : w.grants (c.store unit.key resolution.goal unit.fingerprint).run = true) :
      Called r c w path forced (.ok ⟨unit.key, resolution, (r.recalled w unit).2⟩)
        (w.act (c.store unit.key resolution.goal unit.fingerprint)).2
  | dropped {unit : SourceUnit} {e : Error} {record : Record} (hsource : w.source path = .ok unit)
      (hrejection : e.isRejection = true) (hrecord : c.recordIn w unit.key = some record)
      (hremove : w.grants (c.remove unit.key).run = true) :
      Called r c w path forced (.error e) (w.act (c.remove unit.key)).2
  | unknown {unit : SourceUnit} {e : Error} (hsource : w.source path = .ok unit)
      (hrejection : e.isRejection = true) (hnone : c.recordIn w unit.key = none) :
      Called r c w path forced (.error e) w
  | failed {e : Error} (hfailed : e.isRejection = false) : Called r c w path forced (.error e) w

variable {path : Path} {forced : Option Goal}

/-- What is granted to a whole call is granted to its last part. -/
theorem grants_of_resolve (hquiet : r.grammar.IsQuiet) (hsource : w.source path = .ok unit)
    {declared : Option Goal} (hdeclared : r.declaredIn w unit forced = .ok declared)
    (h : w.grants (r.resolve path forced).run = true) :
    match r.answer w unit declared with
    | .ok found => w.grants (r.remember unit found.goal) = true
    | .error e => (e.isRejection && hasRecord (r.recalled w unit).2) = true →
        w.grants (r.forget unit) = true := by
  have hresolveUnit : w.grants (r.resolveUnit unit declared).run = true := by
    unfold resolve at h
    rw [World.grants_bind_ok _ ((World.act_load w path).trans (by rw [hsource]))] at h
    replace h := (Bool.and_eq_true_iff.1 h).2
    cases forced with
    | some goal =>
      cases hdeclared
      rw [World.grants_bind_ok _ (World.act_pure w (some goal))] at h
      exact (Bool.and_eq_true_iff.1 h).2
    | none =>
      change w.grants (r.declaration.lookup unit.key >>= _).run = true at h
      rw [World.grants_bind_ok _ ((World.act_lookup w r.declaration unit.key).trans
        (by rw [← hdeclared]; rfl))] at h
      exact (Bool.and_eq_true_iff.1 h).2
  unfold resolveUnit at hresolveUnit
  rw [World.grants_act_bind, World.act_ofProgram, run_remembered] at hresolveUnit
  replace hresolveUnit := (Bool.and_eq_true_iff.1 hresolveUnit).2
  dsimp only at hresolveUnit
  rw [World.grants_act_bind, World.act_ofProgram, Resolver.run_resolve _ _ _ _ hquiet] at hresolveUnit
  replace hresolveUnit := (Bool.and_eq_true_iff.1 hresolveUnit).2
  change w.grants (match r.answer w unit declared with
    | .ok resolution => _
    | .error e => _ : Action Outcome).run = true at hresolveUnit
  cases hanswer : r.answer w unit declared with
  | ok found =>
    rw [hanswer] at hresolveUnit
    dsimp only at hresolveUnit ⊢
    rw [World.grants_act_bind, World.grants_ofProgram] at hresolveUnit
    exact (Bool.and_eq_true_iff.1 hresolveUnit).1
  | error e =>
    rw [hanswer] at hresolveUnit
    dsimp only at hresolveUnit ⊢
    intro hdrops
    rw [if_pos hdrops, World.grants_act_bind, World.grants_ofProgram] at hresolveUnit
    exact (Bool.and_eq_true_iff.1 hresolveUnit).1

theorem hasRecord_recalled (hcache : r.cache = some c) :
    hasRecord (r.recalled w unit).2 = (c.recordIn w unit.key).isSome := by
  rw [recalled_of_some r w unit hcache]
  cases c.recordIn w unit.key with
  | none => rfl
  | some record =>
    dsimp only
    split_ifs <;> rfl

/-- A call whose changes are all made does one of these. -/
theorem called (hcache : r.cache = some c) (hquiet : r.grammar.IsQuiet)
    (h : w.grants (r.resolve path forced).run = true) :
    Called r c w path forced (w.act (r.resolve path forced)).1 (w.act (r.resolve path forced)).2 := by
  rw [act_resolve]
  cases hsource : w.source path with
  | error e => exact .failed (Action.NeverRejects.load path w e hsource)
  | ok unit =>
    dsimp only
    cases hdeclared : r.declaredIn w unit forced with
    | error e => exact .failed (isRejection_of_declaredIn hdeclared)
    | ok declared =>
      dsimp only
      have hgranted := grants_of_resolve hquiet hsource hdeclared h
      rw [act_resolveUnit r w unit hquiet]
      cases hanswer : r.answer w unit declared with
      | ok resolution =>
        rw [hanswer] at hgranted
        dsimp only at hgranted ⊢
        rw [grants_remember hcache] at hgranted
        rw [run_remember hcache]
        exact .found hsource hdeclared hanswer hgranted
      | error e =>
        rw [hanswer] at hgranted
        dsimp only at hgranted ⊢
        cases hrejection : e.isRejection with
        | false => exact .failed hrejection
        | true =>
          rw [hrejection, Bool.true_and, hasRecord_recalled hcache] at hgranted
          rw [hasRecord_recalled hcache]
          cases hrecord : c.recordIn w unit.key with
          | none => exact .unknown hsource hrejection hrecord
          | some record =>
            have hforget := hgranted (congrArg Option.isSome hrecord)
            rw [grants_forget hcache] at hforget
            rw [Option.isSome_some, Bool.and_true, if_pos rfl, run_forget hcache]
            exact .dropped hsource hrejection hrecord hforget

end FileResolver
end ParseGoal
