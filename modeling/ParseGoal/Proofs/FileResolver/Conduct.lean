import ParseGoal.Proofs.Cache.Sharing
import ParseGoal.Proofs.FileResolver.History

/-!
One call of a resolver among others that go on at the same time: what it looks at before it uses the cache, and
that it answers as if it were alone, as long as the others leave that and its own files in the cache as they are.
-/
namespace ParseGoal

instance : LawfulMonad Program := LawfulMonad.mk' Program Program.bind_done (fun _ _ => rfl) Program.bind_assoc

/-- A grammar whose attempts ask for nothing but how they end. -/
def Grammar.AsksFates (grammar : Grammar Program) : Prop :=
  ∀ (source : Bytes) (goal : Goal), (grammar.attempt source goal).AsksOnly Request.isFate

theorem Grammar.asksFates_timedProbe (limit : Nat) : (FileResolver.timedProbe limit).AsksFates := by
  intro source goal
  unfold FileResolver.timedProbe
  split_ifs
  · exact .pure _
  · exact .bind (.pure _) fun _ => .bind (.request rfl) fun _ => .pure _

theorem Grammar.AsksFates.isQuiet {grammar : Grammar Program} (h : grammar.AsksFates) : grammar.IsQuiet :=
  fun source goal => ((h source goal).mono fun _ => Request.isReading_of_isFate).isQuiet

namespace Program

variable {α β : Type} {terms : Terms} {w : World}

theorem run_ofProgram_bind (p : Program α) (f : α → Action β) :
    (Action.ofProgram p >>= f).run = p >>= fun value => (f value).run :=
  ExceptT.run_bind_lift p f

theorem Abides.ofProgram_bind {ends : Except Error β → World → Prop} {middle : α → World → Prop}
    {p : Program α} {f : α → Action β} (hp : Abides terms middle p w)
    (hf : ∀ value w', middle value w' → Abides terms ends (f value).run w') :
    Abides terms ends (Action.ofProgram p >>= f).run w := by
  rw [run_ofProgram_bind]
  exact hp.bind hf

theorem AsksOnly.looksAt_eq_nil {p : Program α} (h : p.AsksOnly Request.isFate) : w.looksAt p = [] := by
  induction p generalizing w with
  | done value => rfl
  | ask r next ih =>
    have hr := h.1
    cases r with
    | fate limit source goal => exact ih _ (h.2 _)
    | _ => cases hr

end Program

theorem Resolver.asksFates_resolve (r : Resolver) {grammar : Grammar Program} (h : grammar.AsksFates)
    (key : String) (source : Bytes) (lead : Lead) :
    (r.resolve grammar key source lead).AsksOnly Request.isFate := by
  suffices hall : ∀ (candidates : List Candidate) (tried : List Goal),
      (r.tryEach grammar key source lead tried candidates).AsksOnly Request.isFate from hall _ _
  intro candidates
  induction candidates with
  | nil => exact fun _ => .pure _
  | cons candidate rest ih =>
    intro tried
    rw [tryEach]
    refine .bind (h _ _) fun verdict => ?_
    cases verdict with
    | ok _ => exact .pure _
    | error failure =>
      dsimp only
      split_ifs
      · exact .pure _
      · exact ih _

namespace FileResolver

/-- The goal that is declared for a source, a forced one before any other. -/
def declare (r : FileResolver) (unit : SourceUnit) : (forced : Option Goal) → Action (Option Goal)
  | some goal => pure (some goal)
  | none => r.declaration.lookup unit.key

/-- What is read of a file before it is resolved: its source, and the goal that is declared for it. -/
def gather (r : FileResolver) (path : Path) (forced : Option Goal) : Action (SourceUnit × Option Goal) := do
  let unit ← SourceUnit.load path
  let declared ← r.declare unit forced
  return (unit, declared)

variable {r : FileResolver} {c : Cache} {w v : World} {path : Path} {forced declared : Option Goal}
  {unit : SourceUnit} {terms : Program.Terms}

theorem resolve_eq (r : FileResolver) (path : Path) (forced : Option Goal) :
    r.resolve path forced = r.gather path forced >>= fun found => r.resolveUnit found.1 found.2 := by
  cases forced <;> simp only [resolve, gather, declare, bind_assoc, pure_bind]

theorem asksOnly_gather (r : FileResolver) (path : Path) (forced : Option Goal) :
    Program.AsksOnly Request.isReading (r.gather path forced).run := by
  refine .act_bind (.load path) fun unit => .act_bind ?_ fun _ => .pure _
  cases forced with
  | some goal => exact .pure _
  | none => exact .lookup _ _

theorem neverRejects_gather (r : FileResolver) (path : Path) (forced : Option Goal) :
    (r.gather path forced).NeverRejects := by
  refine .bind (.load path) fun unit => .bind ?_ fun _ => .pure _
  cases forced with
  | some goal => exact .pure _
  | none => exact .lookup _ _

theorem act_gather (r : FileResolver) (w : World) (path : Path) (forced : Option Goal) :
    w.act (r.gather path forced) = ((w.act (r.gather path forced)).1, w) :=
  Program.IsQuiet.run_eq (asksOnly_gather r path forced).isQuiet w

theorem source_of_gather (h : (w.act (r.gather path forced)).1 = .ok (unit, declared)) :
    w.source path = .ok unit := by
  unfold gather at h
  rw [World.act_bind, World.act_load] at h
  cases hsource : w.source path with
  | error e =>
    rw [hsource] at h
    cases h
  | ok found =>
    rw [hsource] at h
    dsimp only at h
    rw [World.act_bind] at h
    split at h
    · cases h
      rfl
    · cases h

theorem act_resolve_of_gather (h : (w.act (r.gather path forced)).1 = .ok (unit, declared)) :
    w.act (r.resolve path forced) = w.act (r.resolveUnit unit declared) := by
  have hgather : w.act (r.gather path forced) = (.ok (unit, declared), w) := by rw [act_gather, h]
  rw [resolve_eq, World.act_bind_ok _ _ hgather]

theorem act_resolve_of_gather_error {e : Error} (h : (w.act (r.gather path forced)).1 = .error e) :
    (w.act (r.resolve path forced)).1 = .error e := by
  rw [resolve_eq, World.act_bind, h]

/-- What is remembered under the stem of a path's source is what an answer leaves of it. -/
def Leaves (c : Cache) (w v : World) (path : Path) (answer : Except Error Outcome) : Prop :=
  ∀ unit, w.source path = .ok unit → ∀ key, Cache.stem key = Cache.stem unit.key →
    c.markIn v key = (trace w path answer).foldr (Mark.update key) (c.markIn w key)

section Leaves

variable (hready : c.isReady w = true) (hwithin : c.Within w v) (hsource : w.source path = .ok unit)

include hready hwithin hsource

theorem leaves_of_has {found : Outcome} {instant : Instant} (h : c.Has w v
    ⟨Record.currentVersion, unit.key, found.resolution.goal, unit.fingerprint, instant⟩) :
    Leaves c w v path (.ok found) := by
  intro unit' hunit key hstem
  obtain rfl : unit = unit' := Except.ok.inj (hsource.symm.trans hunit)
  have hrecord := h.recordIn_eq hwithin hready rfl
  rw [trace_of_ok hsource found, List.foldr_cons, List.foldr_nil, Cache.markIn]
  by_cases hkey : unit.key = key
  · rw [← hkey, Mark.update_self, hrecord, Option.map_some]
  · rw [Mark.update_some hkey hstem.symm, Cache.recordIn_eq_none_of_stem hrecord hstem (Ne.symm hkey),
      Option.map_none]

theorem leaves_of_lacks {e : Error} (hrejection : e.isRejection = true)
    (hbefore : (c.recordIn w unit.key).isSome = true) (h : c.Lacks w v unit.key) :
    Leaves c w v path (.error e) := by
  intro unit' hunit key hstem
  obtain rfl : unit = unit' := Except.ok.inj (hsource.symm.trans hunit)
  obtain ⟨record, hrecord⟩ := Option.isSome_iff_exists.1 hbefore
  rw [trace_of_rejected hsource hrejection, List.foldr_cons, List.foldr_nil, Cache.markIn,
    h.recordIn_eq hwithin hready hstem, Option.map_none]
  by_cases hkey : unit.key = key
  · rw [← hkey, Mark.update_self]
  · rw [Mark.update_none hkey, Cache.markIn,
      Cache.recordIn_eq_none_of_stem hrecord hstem (Ne.symm hkey), Option.map_none]

end Leaves

theorem leaves_of_same {answer : Except Error Outcome} (hsource : w.source path = .ok unit)
    (hsame : ∀ key, Cache.stem key = Cache.stem unit.key → c.recordIn v key = c.recordIn w key)
    (h : trace w path answer = [] ∨ trace w path answer = [(unit.key, none)] ∧ c.recordIn w unit.key = none) :
    Leaves c w v path answer := by
  intro unit' hunit key hstem
  obtain rfl : unit = unit' := Except.ok.inj (hsource.symm.trans hunit)
  rw [Cache.markIn_congr (hsame key hstem)]
  rcases h with htrace | ⟨htrace, hnone⟩
  · rw [htrace, List.foldr_nil]
  · rw [htrace, List.foldr_cons, List.foldr_nil]
    by_cases hkey : unit.key = key
    · rw [← hkey, Mark.update_self, Cache.markIn, hnone, Option.map_none]
    · rw [Mark.update_none hkey]

section Cached

variable (hcache : r.cache = some c) (hgrammar : r.grammar.AsksFates) (hready : c.isReady w = true)
  (howns : c.Owns w unit.key terms)

include hcache hready howns

theorem abides_remembered : Program.Abides terms (fun found v => found = r.recalled w unit ∧ terms.rely w v)
    (r.remembered unit) w := by
  rw [remembered, hcache]
  dsimp only
  refine .bind (howns.abides_lookup hready) ?_
  rintro found v ⟨hfound, hrely⟩
  have hrecalled := recalled_of_some r w unit hcache
  rw [← hfound] at hrecalled
  clear hfound
  cases found with
  | none => exact fun v' hmore => ⟨hrecalled.symm, terms.trans hrely hmore⟩
  | some record =>
    refine fun v' hmore => ⟨?_, terms.trans hrely hmore⟩
    rw [hrecalled]
    simp [Record.isValidFor]

theorem abides_remember (hwithin : c.Within w v) (goal : Goal) :
    Program.Abides terms (fun _ v => c.Within w v ∧
      ∃ instant, c.Has w v ⟨Record.currentVersion, unit.key, goal, unit.fingerprint, instant⟩)
      (r.remember unit goal) v := by
  rw [remember, hcache]
  dsimp only
  refine .bind (howns.abides_store hready hwithin goal unit.fingerprint) fun _ v₁ hstored v₂ hrely => ?_
  obtain ⟨hwithin₁, instant, hhas⟩ := hstored
  exact ⟨(howns.rely hrely hwithin₁).1, instant, hhas.of_changes hwithin₁ (howns.rely hrely)⟩

theorem abides_forget (hwithin : c.Within w v) :
    Program.Abides terms (fun _ v => c.Within w v ∧ c.Lacks w v unit.key) (r.forget unit) v := by
  rw [forget, hcache]
  dsimp only
  refine .bind (howns.abides_remove hready hwithin) fun _ v₁ hremoved v₂ hrely => ?_
  obtain ⟨hwithin₁, hlacks⟩ := hremoved
  exact ⟨(howns.rely hrely hwithin₁).1, hlacks.of_changes hwithin₁ (howns.rely hrely)⟩

include hgrammar

omit hcache hready in
theorem abides_attempts (hrely : terms.rely w v) (lead : Lead) :
    Program.Abides terms (fun result v => result =
        r.resolver.resolve (r.grammar.within w) unit.key unit.bytes lead ∧ terms.rely w v)
      (r.resolver.resolve r.grammar unit.key unit.bytes lead) v := by
  have hasks := r.resolver.asksFates_resolve hgrammar unit.key unit.bytes lead
  have hwithin := (howns.rely hrely (.refl c w)).1
  have hresult := Program.AsksOnly.run_eq hasks hwithin.cwd hwithin.fate
  rw [Resolver.run_resolve _ _ _ _ hgrammar.isQuiet w] at hresult
  have habides : Program.Abides terms (fun result v' => result =
        (v.run (r.resolver.resolve r.grammar unit.key unit.bytes lead)).1 ∧ terms.rely v v')
      (r.resolver.resolve r.grammar unit.key unit.bytes lead) v := by
    refine (hasks.mono fun _ => Request.isReading_of_isFate).abides (fun v' hmore => ?_)
      fun v' => howns.guarantee (.refl c w _ v')
    have hwithin' := (howns.rely hmore hwithin).1
    rw [hasks.looksAt_eq_nil]
    exact ⟨hwithin'.cwd.trans hwithin.cwd.symm, hwithin'.fate.trans hwithin.fate.symm, nofun⟩
  exact habides.imp fun result v' h => ⟨h.1.trans hresult, terms.trans hrely h.2⟩

/-- Resolving a source among others gives the answer that it gives alone, and leaves what it should. -/
theorem abides_resolveUnit (hsource : w.source path = .ok unit) (declared : Option Goal) :
    Program.Abides terms (fun answer v => answer = (w.act (r.resolveUnit unit declared)).1 ∧
      Leaves c w v path answer) (r.resolveUnit unit declared).run w := by
  rw [act_resolveUnit r w unit hgrammar.isQuiet]
  unfold resolveUnit
  refine .ofProgram_bind (abides_remembered hcache hready howns) ?_
  rintro found v ⟨hfound, hrely⟩
  refine .ofProgram_bind (abides_attempts hgrammar howns hrely _) ?_
  rintro result v₁ ⟨hresult, hrely₁⟩
  have hwithin := (howns.rely hrely₁ (.refl c w)).1
  have hanswer : result = r.answer w unit declared := by rw [hresult, hfound, answer]
  rw [← hanswer]
  cases result with
  | ok resolution =>
    refine .ofProgram_bind (abides_remember hcache hready howns hwithin resolution.goal) ?_
    rintro - v₂ ⟨hwithin₂, instant, hhas⟩ v₃ hrely₃
    refine ⟨by rw [hfound], ?_⟩
    exact leaves_of_has hready (howns.rely hrely₃ hwithin₂).1 hsource
      (hhas.of_changes hwithin₂ (howns.rely hrely₃))
  | error e =>
    have hstatus : hasRecord found.2 = (c.recordIn w unit.key).isSome := by
      rw [hfound, hasRecord_recalled hcache]
    dsimp only
    split_ifs with hdrops
    · obtain ⟨hrejection, hrecord⟩ := Bool.and_eq_true_iff.1 hdrops
      rw [hstatus] at hrecord
      refine .ofProgram_bind (abides_forget hcache hready howns hwithin) ?_
      rintro - v₂ ⟨hwithin₂, hlacks⟩ v₃ hrely₃
      refine ⟨rfl, leaves_of_lacks hready (howns.rely hrely₃ hwithin₂).1 hsource hrejection hrecord ?_⟩
      exact hlacks.of_changes hwithin₂ (howns.rely hrely₃)
    · -- Nothing is dropped: the source was not rejected, or there was no record of it that could be dropped.
      intro v₂ hrely₂
      refine ⟨rfl, leaves_of_same hsource (fun key hstem =>
        howns.recordIn_eq hready (terms.trans hrely₁ hrely₂) hstem) ?_⟩
      cases hrejection : e.isRejection with
      | false => exact .inl (trace_of_failed hrejection)
      | true =>
        rw [hrejection, hstatus, Bool.true_and] at hdrops
        exact .inr ⟨trace_of_rejected hsource hrejection, by simpa using hdrops⟩

end Cached

/-- So does resolving a file, if the others also leave alone what is looked at to gather what it needs. -/
theorem abides_resolve (hcache : r.cache = some c) (hgrammar : r.grammar.AsksFates)
    (hready : c.isReady w = true) (howns : ∀ unit, w.source path = .ok unit → c.Owns w unit.key terms)
    (hsees : ∀ v, terms.rely w v → v.cwd = w.cwd ∧ v.fate = w.fate ∧
      ∀ place ∈ w.looksAt (r.gather path forced).run, v.disk.entry? place = w.disk.entry? place)
    (hguarantee : ∀ v, terms.guarantee v v) :
    Program.Abides terms (fun answer v => answer = (w.act (r.resolve path forced)).1 ∧
      Leaves c w v path answer) (r.resolve path forced).run w := by
  have hgather : Program.Abides terms (fun answer v => (w.act (r.gather path forced)).1 = answer ∧
      terms.rely w v) (r.gather path forced).run w :=
    ((asksOnly_gather r path forced).abides hsees hguarantee).imp fun _ _ h => ⟨h.1.symm, h.2⟩
  rw [resolve_eq]
  refine .act_bind hgather ?_ ?_
  · rintro ⟨unit, declared⟩ v ⟨hfound, hrely⟩
    have hsource := source_of_gather hfound
    rw [← resolve_eq, act_resolve_of_gather hfound]
    exact (abides_resolveUnit hcache hgrammar hready (howns unit hsource) hsource declared).mono hrely
  · rintro e v ⟨hfailed, hrely⟩ v₁ hrely₁
    rw [← resolve_eq, act_resolve_of_gather_error hfailed]
    refine ⟨rfl, fun unit hsource => leaves_of_same hsource (fun key hstem => ?_) (.inl ?_) unit hsource⟩
    · exact (howns unit hsource).recordIn_eq hready (terms.trans hrely hrely₁) hstem
    · exact trace_of_failed (neverRejects_gather r path forced w e hfailed)

end FileResolver
end ParseGoal
