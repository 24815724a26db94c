import ParseGoal.Proofs.FileResolver.Conduct

/-!
A batch of files with keys of their own: whatever the turns of the calls, each answers as it would alone, and
what the cache remembers afterwards is what it remembers after the calls were made one after another, in any
order. This needs a directory without links, and that no call looks at what another one writes.
-/
namespace ParseGoal

namespace Cache

/-- Whether files of the source that a path leads to are put at a location. -/
def isPlaceFor (c : Cache) (w : World) (path : Path) (place : Location) : Bool :=
  match w.source path with
  | .ok unit => c.isPlaceOf w unit.key place
  | .error _ => false

theorem isPlaceFor_of_source {c : Cache} {w : World} {path : Path} {unit : SourceUnit}
    (h : w.source path = .ok unit) : c.isPlaceFor w path = c.isPlaceOf w unit.key := by
  funext place
  rw [isPlaceFor, h]

end Cache

namespace FileResolver

/--
Whether nothing that is looked at for the source and the declared goal of one path is a file that is written or
removed for another path, or is there only once the directory of the cache is made.
-/
def spares (r : FileResolver) (w : World) (forced : Option Goal) (other path : Path) : Bool :=
  match r.cache with
  | none => true
  | some c => (w.looksAt (r.gather path forced).run).all fun place =>
      !c.isPlaceFor w other place && Disk.entry? (c.made w) place = w.disk.entry? place

/-- Resolves files one after another. -/
def resolveEach (r : FileResolver) (forced : Option Goal) :
    List Path → Program (List (Path × Except Error Outcome))
  | [] => return []
  | path :: rest => do
    let answer ← (r.resolve path forced).run
    return (path, answer) :: (← r.resolveEach forced rest)

variable {r : FileResolver} {c : Cache} {w v : World} {path : Path} {paths : List Path}
  {forced : Option Goal}

theorem finishRunning_waiting (programs : List (Program (Except Error Outcome))) :
    Program.finishRunning (programs.map .waiting) = .done (programs.map .waiting) := by
  induction programs with
  | nil => rfl
  | cons program rest ih =>
    rw [List.map_cons, Program.finishRunning, ih]
    · rfl
    · rintro _ ⟨⟩

/-- Without turns, the files are resolved one after another. -/
theorem resolveAll_of_no_turns (r : FileResolver) (paths : List Path) (forced : Option Goal) :
    r.resolveAll [] paths forced = r.resolveEach forced paths := by
  have hslots : (paths.map fun path => Program.Slot.waiting (r.resolve path forced).run) =
      (paths.map fun path => (r.resolve path forced).run).map .waiting := by
    rw [List.map_map]
    rfl
  rw [resolveAll, Program.interleave, hslots, finishRunning_waiting]
  change (Program.finishAll _ >>= fun results => pure (paths.zip results)) = _
  clear hslots
  induction paths with
  | nil => rfl
  | cons path rest ih =>
    rw [List.map_cons, List.map_cons, Program.finishAll_cons, resolveEach, ← ih]
    simp only [bind_assoc, pure_bind, List.zip_cons_cons]
    rfl

/-- What a call for a path relies on while others go on, what it does to the disk, and what it leaves. -/
def contract (r : FileResolver) (c : Cache) (w : World) (forced : Option Goal) (path : Path) :
    Program.Contract (Except Error Outcome) where
  rely v v' := c.Changes w (¬c.isPlaceFor w path · = true) v v' ∧
    (c.Within w v → ∀ place ∈ w.looksAt (r.gather path forced).run,
      v'.disk.entry? place = v.disk.entry? place)
  guarantee v v' := c.Changes w (c.isPlaceFor w path · = true) v v'
  ends answer v := answer = (w.act (r.resolve path forced)).1 ∧ Leaves c w v path answer
  refl v := ⟨.refl c w _ v, fun _ _ _ => rfl⟩
  trans h h' := ⟨h.1.trans h'.1, fun hwithin place hplace =>
    (h'.2 (h.1 hwithin).1 place hplace).trans (h.2 hwithin place hplace)⟩

theorem owns_contract {unit : SourceUnit} (hsource : w.source path = .ok unit) :
    c.Owns w unit.key (r.contract c w forced path).toTerms := by
  have hplaces := Cache.isPlaceFor_of_source (c := c) hsource
  refine ⟨fun {v v'} h => hplaces ▸ h.1, fun {v v'} h => ?_⟩
  change c.Changes w (c.isPlaceFor w path · = true) v v'
  rwa [hplaces]

theorem abides_contract (hcache : r.cache = some c) (hgrammar : r.grammar.AsksFates)
    (hready : c.isReady w = true) (path : Path) :
    Program.Abides (r.contract c w forced path).toTerms (r.contract c w forced path).ends
      (r.resolve path forced).run w := by
  refine abides_resolve hcache hgrammar hready (fun _ => owns_contract) (fun v hrely => ?_)
    fun v => .refl c w _ v
  have hwithin := (hrely.1 (.refl c w)).1
  exact ⟨hwithin.cwd, hwithin.fate, hrely.2 (.refl c w)⟩

/-- Two paths that lead to sources with keys that are not the same and not confused either. -/
def KeysApart (w : World) (path other : Path) : Prop :=
  ∀ first second, w.source path = .ok first → w.source other = .ok second →
    first.key ≠ second.key ∧ Cache.KeptApart first.key second.key

theorem KeysApart.symm {other : Path} (h : KeysApart w path other) : KeysApart w other path :=
  fun first second hfirst hsecond =>
    have ⟨hne, hapart⟩ := h second first hsecond hfirst
    ⟨hne.symm, fun hstem => (hapart hstem.symm).symm⟩

theorem keysApart_of_sources {other : Path} {first second : SourceUnit} (hfirst : w.source path = .ok first)
    (hsecond : w.source other = .ok second) (hstem : Cache.stem first.key ≠ Cache.stem second.key) :
    KeysApart w path other := by
  intro first' second' hfirst' hsecond'
  cases hfirst.symm.trans hfirst'
  cases hsecond.symm.trans hsecond'
  exact ⟨fun heq => hstem (congrArg Cache.stem heq), fun heq => absurd heq hstem⟩

/-- What is done for one path is nothing that another one does not rely on. -/
theorem rely_of_guarantee (hcache : r.cache = some c) {other : Path} (hkeys : KeysApart w path other)
    (hspares : r.spares w forced path other = true) {v v' : World}
    (h : (r.contract c w forced path).guarantee v v') : (r.contract c w forced other).rely v v' := by
  have hchanges : c.Changes w (c.isPlaceFor w path · = true) v v' := h
  refine ⟨hchanges.mono fun place hplace hother => ?_, fun hwithin place hplace => ?_⟩
  · cases hfirst : w.source path with
    | error e => simp [Cache.isPlaceFor, hfirst] at hplace
    | ok first =>
      cases hsecond : w.source other with
      | error e => simp [Cache.isPlaceFor, hsecond] at hother
      | ok second =>
        rw [Cache.isPlaceFor_of_source hfirst] at hplace
        rw [Cache.isPlaceFor_of_source hsecond] at hother
        obtain ⟨hne, hapart⟩ := hkeys first second hfirst hsecond
        exact hne (hapart (Cache.stem_eq_of_isPlaceOf hplace hother))
  · rw [spares, hcache] at hspares
    have hspared := List.all_eq_true.1 hspares place hplace
    rw [Bool.and_eq_true, Bool.not_eq_true', decide_eq_true_iff] at hspared
    obtain ⟨hnot, hsame⟩ := hspared
    obtain ⟨hwithin', hkept⟩ := hchanges hwithin
    rw [hwithin'.entry?_made hsame, hkept place (Bool.eq_false_iff.1 hnot), hwithin.entry?_made hsame]

theorem run_resolveAll_of_fits {contract : Path → Program.Contract (Except Error Outcome)}
    (hfits : (paths.map contract).Pairwise Program.Contract.Fits)
    (habides : ∀ path,
      Program.Abides (contract path).toTerms (contract path).ends (r.resolve path forced).run w)
    (hends : ∀ path answer v, (contract path).ends answer v → answer = (w.act (r.resolve path forced)).1)
    {turns : List Nat} (hgrants : w.grants (r.resolveAll turns paths forced) = true) :
    (w.run (r.resolveAll turns paths forced)).1 =
      paths.map (fun path => (path, (w.act (r.resolve path forced)).1)) ∧
    (∀ path ∈ paths, (contract path).ends (w.act (r.resolve path forced)).1
      (w.run (r.resolveAll turns paths forced)).2) ∧
    ∀ change : World → World → Prop, (∀ w, change w w) →
      (∀ {w w' w''}, change w w' → change w' w'' → change w w'') →
      (∀ path ∈ paths, ∀ v v', (contract path).guarantee v v' → change v v') →
        change w (w.run (r.resolveAll turns paths forced)).2 := by
  rw [resolveAll, World.grants_bind, World.grants_pure, Bool.and_true] at hgrants
  rw [resolveAll, World.run_bind, World.run_pure]
  have hbound : Program.Bound (paths.map contract)
      ((paths.map fun path => Program.Slot.waiting (r.resolve path forced).run).map Program.Slot.rest) w := by
    intro i bound p hcontract hp
    rw [List.getElem?_map] at hcontract
    rw [List.map_map, List.getElem?_map] at hp
    cases hpath : paths[i]? with
    | none =>
      rw [hpath] at hp
      cases hp
    | some path =>
      rw [hpath] at hp hcontract
      cases hp
      cases hcontract
      exact habides path
  obtain ⟨hlength, hended, hchange⟩ := Program.run_interleave hfits (r.batchLimit paths) turns hbound
    (by rw [List.length_map, List.length_map]) hgrants
  rw [List.length_map] at hlength
  have hanswer {i : Nat} (hi : i < paths.length) := hended i (contract paths[i]) _
    (by rw [List.getElem?_map, List.getElem?_eq_getElem hi]; rfl)
    (List.getElem?_eq_getElem (hlength ▸ hi))
  -- Each call ends in keeping with its contract, and so with the answer that it has alone.
  have hresults : (w.run (Program.interleave (r.batchLimit paths) turns
      (paths.map fun path => .waiting (r.resolve path forced).run))).1 =
        paths.map fun path => (w.act (r.resolve path forced)).1 := by
    refine List.ext_getElem (by rw [hlength, List.length_map]) fun i hi _ => ?_
    rw [List.getElem_map]
    exact hends _ _ _ (hanswer (hlength ▸ hi))
  refine ⟨?_, fun path hpath => ?_, fun change hrefl htrans hall => ?_⟩
  · rw [hresults, List.map_prod_left_eq_zip]
  · obtain ⟨i, hi, rfl⟩ := List.mem_iff_getElem.1 hpath
    have hend := hanswer hi
    rwa [hends _ _ _ hend] at hend
  · refine hchange change hrefl htrans fun contract hcontract => ?_
    obtain ⟨path, hpath, rfl⟩ := List.mem_map.1 hcontract
    exact hall path hpath

/-! Where nothing is remembered, the calls only read. -/

theorem asksOnly_resolve (hcache : r.cache = none) (hgrammar : r.grammar.AsksFates) (path : Path)
    (forced : Option Goal) : Program.AsksOnly Request.isReading (r.resolve path forced).run := by
  rw [resolve_eq]
  refine .act_bind (asksOnly_gather r path forced) fun found => ?_
  have hattempts (lead : Lead) := (r.resolver.asksFates_resolve hgrammar found.1.key found.1.bytes lead).mono
    fun _ => Request.isReading_of_isFate
  unfold resolveUnit
  refine .act_bind (.ofProgram ?_) fun remembered => .act_bind (.ofProgram (hattempts _)) fun result => ?_
  · rw [remembered, hcache]
    exact .pure _
  · cases result with
    | ok resolution =>
      refine .act_bind (.ofProgram ?_) fun _ => .pure _
      rw [remember, hcache]
      exact .pure _
    | error e =>
      dsimp only
      split_ifs
      · refine .act_bind (.ofProgram ?_) fun _ => .pure _
        rw [forget, hcache]
        exact .pure _
      · exact .pure _

/-- What a call that only reads relies on and does: the disk stays as it is. -/
def readingContract (r : FileResolver) (w : World) (forced : Option Goal) (path : Path) :
    Program.Contract (Except Error Outcome) where
  rely v v' := v'.disk = v.disk ∧ v'.cwd = v.cwd ∧ v'.fate = v.fate
  guarantee v v' := v'.disk = v.disk ∧ v'.cwd = v.cwd ∧ v'.fate = v.fate
  ends answer _ := answer = (w.act (r.resolve path forced)).1
  refl _ := ⟨rfl, rfl, rfl⟩
  trans h h' := ⟨h'.1.trans h.1, h'.2.1.trans h.2.1, h'.2.2.trans h.2.2⟩

theorem run_resolveAll_of_no_cache (hcache : r.cache = none) (hgrammar : r.grammar.AsksFates)
    {turns : List Nat} (hgrants : w.grants (r.resolveAll turns paths forced) = true) :
    (w.run (r.resolveAll turns paths forced)).1 =
      paths.map fun path => (path, (w.act (r.resolve path forced)).1) := by
  have hfits : (paths.map (r.readingContract w forced)).Pairwise Program.Contract.Fits :=
    List.pairwise_map.2 (List.pairwise_of_forall fun _ _ => ⟨fun _ _ h => h, fun _ _ h => h⟩)
  refine (run_resolveAll_of_fits hfits (fun path => ?_) (fun _ _ _ h => h) hgrants).1
  have habides : Program.Abides (r.readingContract w forced path).toTerms (fun answer v =>
      answer = (w.act (r.resolve path forced)).1 ∧ (r.readingContract w forced path).rely w v)
      (r.resolve path forced).run w := by
    refine (asksOnly_resolve hcache hgrammar path forced).abides (fun v hrely => ?_) fun _ => ⟨rfl, rfl, rfl⟩
    exact ⟨hrely.2.1, hrely.2.2, fun _ _ => by rw [hrely.1]⟩
  exact habides.imp fun _ _ h => h.1

/-! Where decisions are remembered, each call leaves its own. -/

/-- What a batch leaves in a cache: of each source what the answer leaves, and of other keys what was there. -/
structure LeavesEach (c : Cache) (w v : World) (paths : List Path)
    (answer : Path → Except Error Outcome) : Prop where
  own (path : Path) (hpath : path ∈ paths) : Leaves c w v path (answer path)
  other (key : String) (hkey : ∀ path ∈ paths, ∀ unit, w.source path = .ok unit →
    Cache.stem key ≠ Cache.stem unit.key) : c.markIn v key = c.markIn w key

/-- This determines what is remembered of each key, and the order of the paths does not matter. -/
theorem LeavesEach.markIn_eq {answer : Path → Except Error Outcome} {v v' : World} {order : List Path}
    (h : LeavesEach c w v paths answer) (h' : LeavesEach c w v' order answer) (horder : order.Perm paths)
    (key : String) : c.markIn v key = c.markIn v' key := by
  by_cases hkey : ∃ path ∈ paths, ∃ unit, w.source path = .ok unit ∧ Cache.stem key = Cache.stem unit.key
  · obtain ⟨path, hpath, unit, hunit, hstem⟩ := hkey
    rw [h.own path hpath unit hunit key hstem, h'.own path (horder.mem_iff.2 hpath) unit hunit key hstem]
  · have hother : ∀ path ∈ paths, ∀ unit, w.source path = .ok unit → Cache.stem key ≠ Cache.stem unit.key :=
      fun path hpath unit hunit hstem => hkey ⟨path, hpath, unit, hunit, hstem⟩
    rw [h.other key hother, h'.other key fun path hpath => hother path (horder.mem_iff.1 hpath)]

theorem run_resolveAll_of_cache (hcache : r.cache = some c) (hgrammar : r.grammar.AsksFates)
    (hready : c.isReady w = true) (hkeys : paths.Pairwise (KeysApart w))
    (hspares : paths.Pairwise fun path other =>
      r.spares w forced path other = true ∧ r.spares w forced other path = true)
    {turns : List Nat} (hgrants : w.grants (r.resolveAll turns paths forced) = true) :
    (w.run (r.resolveAll turns paths forced)).1 =
      paths.map (fun path => (path, (w.act (r.resolve path forced)).1)) ∧
    LeavesEach c w (w.run (r.resolveAll turns paths forced)).2 paths fun path =>
      (w.act (r.resolve path forced)).1 := by
  have hfits : (paths.map (r.contract c w forced)).Pairwise Program.Contract.Fits :=
    List.pairwise_map.2 ((hkeys.and hspares).imp fun h =>
      ⟨fun _ _ => rely_of_guarantee hcache h.1 h.2.1, fun _ _ => rely_of_guarantee hcache h.1.symm h.2.2⟩)
  obtain ⟨hresults, hends, hchange⟩ := run_resolveAll_of_fits hfits
    (abides_contract hcache hgrammar hready) (fun _ _ _ h => h.1) hgrants
  refine ⟨hresults, ⟨fun path hpath => (hends path hpath).2, fun key hkey => ?_⟩⟩
  obtain ⟨hwithin, hsame⟩ := hchange (c.Changes w fun place => ∃ path ∈ paths, c.isPlaceFor w path place = true)
    (.refl c w _) (fun h h' => h.trans h')
    (fun path hpath v v' (h : c.Changes w _ v v') => h.mono fun place hplace => ⟨path, hpath, hplace⟩)
    (.refl c w)
  -- A path that writes where this record is has a key with the same stem.
  refine Cache.markIn_congr (hwithin.recordIn_eq hready fun home hhome => hsame _ ?_)
  rintro ⟨path, hpath, hplace⟩
  cases hsource : w.source path with
  | error e => simp [Cache.isPlaceFor, hsource] at hplace
  | ok unit =>
    rw [Cache.isPlaceFor_of_source hsource] at hplace
    exact hkey path hpath unit hsource
      (Cache.stem_eq_of_isNameOf (Cache.isNameOf_recordName key) (Cache.isPlaceOf_cons.1 hplace).2)

end FileResolver

namespace World

variable {α : Type} {w : World}

/-- What a program returns, if every change that it asks for is made. -/
def granted? (w : World) : Program α → Option α
  | .done value => some value
  | .ask request next =>
    let (answer, after) := w.perform request
    if request.isRefused answer then none else after.granted? (next answer)

theorem granted?_eq_some {p : Program α} {value : α} :
    w.granted? p = some value ↔ w.grants p = true ∧ (w.run p).1 = value := by
  induction p generalizing w with
  | done a => simp [granted?, grants, run]
  | ask request next ih =>
    rw [granted?, grants, run]
    cases hrefused : request.isRefused (w.perform request).1 <;> simp [hrefused, ih]

end World

/-- A record without the time at which it was stored. -/
def Record.undated (record : Record) : Record := { record with storedAt := .epoch }

theorem Cache.recordIn_undated (c : Cache) (w : World) (key : String) :
    (c.recordIn w key).map Record.undated =
      (c.markIn w key).map fun mark => ⟨Record.currentVersion, key, mark.1, mark.2, .epoch⟩ := by
  rw [markIn]
  cases hrecord : c.recordIn w key with
  | none => rfl
  | some record =>
    obtain ⟨_, -, -, hversion, hkey⟩ := recordIn_eq_some.1 hrecord
    simp [Record.undated, hversion, hkey]

namespace FileResolver

variable {r : FileResolver} {w : World} {paths : List Path} {forced : Option Goal}

/-- The status of the cache in an answer. -/
private def status (answer : Except Error Outcome) : Option CacheStatus := answer.toOption.map (·.cache)

/--
The status of the cache for a file that is resolved after another one, if all changes are made, and for that file
alone.
-/
private def statusTwice (r : FileResolver) (w : World) (first second : Path) :
    Option (Option CacheStatus × Option CacheStatus) := do
  let results ← w.granted? (r.resolveAll [] [first, second] none)
  return (results[1]?.bind fun result => status result.2, status (w.act (r.resolve second none)).1)

/--
Files that lead to sources with keys of their own, where all changes are made, and the calls, one after another,
do not answer as they do alone.
-/
structure Meddle (r : FileResolver) (w : World) (paths : List Path) : Prop where
  jobs : 0 < r.jobs
  grammar : r.grammar.AsksFates
  keys : paths.Pairwise (KeysApart w)
  grants : w.grants (r.resolveAll [] paths none) = true
  results : (w.run (r.resolveAll [] paths none)).1 ≠
    paths.map fun path => (path, (w.act (r.resolve path none)).1)

private theorem meddle_of_statusTwice {r : FileResolver} {w : World} {first second : Path}
    {after alone : Option CacheStatus} (hjobs : 0 < r.jobs) (hgrammar : r.grammar.AsksFates)
    (hkeys : KeysApart w first second) (h : statusTwice r w first second = some (after, alone))
    (hne : after ≠ alone) : Meddle r w [first, second] := by
  obtain ⟨results, hresults, hstatus⟩ := Option.bind_eq_some_iff.1 h
  obtain ⟨hgrants, hrun⟩ := World.granted?_eq_some.1 hresults
  obtain ⟨hafter, halone⟩ := Prod.mk.inj (Option.some.inj hstatus)
  refine ⟨hjobs, hgrammar, List.pairwise_pair.2 hkeys, hgrants, fun heq => hne ?_⟩
  rw [← hafter, ← halone, ← hrun, heq]
  rfl

/-- A resolver that takes one file at a time, for sources that parse under any goal. -/
private def oneByOne (c : Cache) (declaration : Declaration) : FileResolver where
  grammar := (Grammar.constant "any" (.ok ())).lift
  cache := some c
  declaration := declaration
  jobs := 1

/-- Two empty files, and more. -/
private def withFiles (disk : Disk) : World :=
  { disk := (disk.put ["a.js"] (.file [])).put ["b.js"] (.file []) }

private theorem meddle_withFiles {c : Cache} {declaration : Declaration} {disk : Disk}
    {after alone : Option CacheStatus} (hstem : Cache.stem "/a.js" ≠ Cache.stem "/b.js")
    (hsources : (withFiles disk).source "/a.js" = .ok ⟨"/a.js", []⟩ ∧
      (withFiles disk).source "/b.js" = .ok ⟨"/b.js", []⟩)
    (h : statusTwice (oneByOne c declaration) (withFiles disk) "/a.js" "/b.js" = some (after, alone))
    (hne : after ≠ alone) : Meddle (oneByOne c declaration) (withFiles disk) ["/a.js", "/b.js"] :=
  meddle_of_statusTwice Nat.one_pos (fun _ _ => .pure _)
    (keysApart_of_sources hsources.1 hsources.2 hstem) h hne

end FileResolver
end ParseGoal
