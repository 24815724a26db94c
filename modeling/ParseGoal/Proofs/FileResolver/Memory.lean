import ParseGoal.Proofs.FileResolver.History

/-!
What a cache remembers after calls that share it: the last decision on each source, and nothing of a
source that was rejected. A call that is repeated at once finds its own decision.
-/
namespace ParseGoal.FileResolver

variable {r : FileResolver} {c : Cache} {w : World} {path : Path} {forced : Option Goal}

theorem recalled_of_record (hcache : r.cache = some c) {unit : SourceUnit} {record : Record}
    (hrecord : c.recordIn w unit.key = some record)
    (hfingerprint : record.fingerprint = unit.fingerprint) :
    r.recalled w unit = (some record.goal, .hit) := by
  rw [recalled_of_some r w unit hcache, hrecord]
  exact if_pos hfingerprint

/-- A goal that was just found is the only one tried when the same is asked again. -/
theorem answer_again (horder : r.resolver.order.Built) (hsteady : r.grammar.IsSteady)
    {after : World} (hfate : after.fate = w.fate) {unit : SourceUnit} {declared : Option Goal}
    {found : Resolution} (hanswer : r.answer w unit declared = .ok found)
    (hrecalled : r.recalled after unit = (some found.goal, .hit)) :
    ∃ again, r.answer after unit declared = .ok again ∧ again.goal = found.goal ∧
      again.attempts = [found.goal] := by
  obtain ⟨before, hfirst⟩ := Resolver.isFirst_of_resolve unit.key horder hanswer
  have haccepts : r.resolver.Accepts (r.grammar.within after) unit.bytes found.goal := by
    rw [hsteady after w hfate]
    exact hfirst.2.2
  have hgoals : ∃ rest, r.resolver.goals (leadOf declared (some found.goal)) = found.goal :: rest := by
    cases declared with
    | none => exact ⟨_, rfl⟩
    | some goal =>
      have hmem := hfirst.mem (List.mem_append_right before (List.mem_singleton_self found.goal))
      rw [List.mem_singleton.1 hmem]
      exact ⟨[], rfl⟩
  have hagain : r.resolver.IsFirst (r.grammar.within after) unit.bytes
      (r.resolver.goals (leadOf declared (some found.goal))) [] found.goal :=
    ⟨hgoals, nofun, haccepts⟩
  refine ⟨⟨found.goal, [found.goal], leadOf declared (some found.goal)⟩, ?_, rfl, rfl⟩
  rw [answer, hrecalled]
  exact Resolver.resolve_eq_ok unit.key hagain

/-- A call that found a goal, repeated where it reads the same, finds it again from its record. -/
theorem act_resolve_again (horder : r.resolver.order.Built) (hcache : r.cache = some c)
    (hquiet : r.grammar.IsQuiet) (hsteady : r.grammar.IsSteady) (hready : c.isReady w = true)
    {after : World} {found : Outcome} (hcalled : Called r c w path forced (.ok found) after)
    (hfate : after.fate = w.fate) (hsource : after.source path = w.source path)
    (hdeclared : ∀ unit, w.source path = .ok unit →
      r.declaredIn after unit forced = r.declaredIn w unit forced) :
    ∃ again, (after.act (r.resolve path forced)).1 = .ok again ∧
      again.resolution.goal = found.resolution.goal ∧ again.cache = .hit ∧
      again.resolution.attempts = [found.resolution.goal] := by
  obtain ⟨unit, record, hunit, hkey, hrecord, hgoal, hfingerprint⟩ := hcalled.recordIn_of_ok hready
  cases hcalled with
  | @found unit' declared resolution hunit' hdeclaredIn hanswer hstore =>
    obtain rfl : unit = unit' := Except.ok.inj (hunit.symm.trans hunit')
    have hrecalled := recalled_of_record hcache hrecord hfingerprint
    rw [hgoal] at hrecalled
    obtain ⟨again, hagain, hsame, hattempts⟩ := answer_again horder hsteady hfate hanswer hrecalled
    refine ⟨⟨unit.key, again, .hit⟩, ?_, hsame, rfl, hattempts⟩
    rw [act_resolve, hsource, hunit]
    dsimp only
    rw [hdeclared unit hunit, hdeclaredIn]
    dsimp only
    rw [act_resolveUnit r _ unit hquiet, hagain, hrecalled]

/--
After a call that found a goal, its source has a record of this goal and of what was read; after a
rejection it has none, and any other failure changes nothing. Records of other keys stay as they are. The
same call at once, if its source and declaration still read the same, finds its goal at the first attempt.
Over a whole history, what is remembered of a key is what the last call on it left.
-/
theorem resolve_remembered {start : World} {log : List Mark} (history : c.History start log w)
    (horder : r.resolver.order.Built) (hcache : r.cache = some c) (hquiet : r.grammar.IsQuiet)
    (hsteady : r.grammar.IsSteady) (hgrants : w.grants (r.resolve path forced).run = true) :
    let answer := (w.act (r.resolve path forced)).1
    let after := (w.act (r.resolve path forced)).2
    (∀ found, answer = .ok found → ∃ unit record, w.source path = .ok unit ∧ found.key = unit.key ∧
      c.recordIn after found.key = some record ∧ record.goal = found.resolution.goal ∧
      record.fingerprint = .ofBytes unit.bytes) ∧
    (∀ e, answer = .error e → e.isRejection = true →
      ∃ unit, w.source path = .ok unit ∧ c.recordIn after unit.key = none) ∧
    (∀ e, answer = .error e → e.isRejection = false → after = w) ∧
    (∀ key, (∀ unit, w.source path = .ok unit → key ≠ unit.key ∧ Cache.KeptApart key unit.key) →
      c.recordIn after key = c.recordIn w key) ∧
    (∀ found, answer = .ok found → after.source path = w.source path →
      (∀ unit, w.source path = .ok unit → r.declaredIn after unit forced = r.declaredIn w unit forced) →
      ∃ again, (after.act (r.resolve path forced)).1 = .ok again ∧
        again.resolution.goal = found.resolution.goal ∧ again.cache = .hit ∧
        again.resolution.attempts = [found.resolution.goal]) ∧
    ∀ key, (∀ mark ∈ log, Cache.KeptApart key mark.1) →
      c.markIn w key = (log.lookup key).getD (c.markIn start key) := by
  intro answer after
  have hready := history.isReady
  have hcalled : Called r c w path forced answer after := called hcache hquiet hgrants
  refine ⟨?_, ?_, ?_, ?_, ?_, fun key => history.markIn_of_keptApart⟩
  · intro found hfound
    rw [hfound] at hcalled
    exact hcalled.recordIn_of_ok hready
  · intro e he
    rw [he] at hcalled
    exact hcalled.recordIn_of_rejected hready
  · intro e he
    rw [he] at hcalled
    exact hcalled.eq_of_failed
  · intro key hkey
    refine hcalled.recordIn_of_ne hready fun unit hunit hstem => ?_
    exact (hkey unit hunit).1 ((hkey unit hunit).2 hstem)
  · intro found hfound hsource hdeclared
    rw [hfound] at hcalled
    exact act_resolve_again horder hcache hquiet hsteady hready hcalled (World.fate_act w _) hsource
      hdeclared

/-- A forced goal is remembered in a directory that is made for it, and found again at once. -/
theorem resolve_remembered_of_forced :
    let c : Cache := ⟨"/c"⟩
    let w : World := { disk := Disk.empty.put ["a.js"] (.file [0x78]) }
    let r : FileResolver := { grammar := timedProbe 0, cache := some c }
    let after := (w.act (r.resolve "/a.js" (some .module))).2
    c.isReady w = true ∧ w.grants (r.resolve "/a.js" (some .module)).run = true ∧
      (∃ record, c.recordIn after "/a.js" = some record ∧ record.goal = .module) ∧
      ∃ again, (after.act (r.resolve "/a.js" (some .module))).1 = .ok again ∧ again.cache = .hit := by
  intro c w r after
  have hready : c.isReady w = true := by decide +kernel
  have hgrants : w.grants (r.resolve "/a.js" (some .module)).run = true := by decide +kernel
  have hsource : w.source "/a.js" = .ok ⟨"/a.js", [0x78]⟩ := by decide +kernel
  have hfound : (w.act (r.resolve "/a.js" (some .module))).1 =
      .ok ⟨"/a.js", ⟨.module, [.module], .declared .module⟩, .miss⟩ := by decide +kernel
  have hsame : after.source "/a.js" = w.source "/a.js" := by
    rw [hsource]
    decide +kernel
  obtain ⟨hstored, -, -, -, hagain, -⟩ := resolve_remembered (.start hready) (r := r) .ofKnown rfl
    (Grammar.isQuiet_timedProbe 0) (Grammar.isSteady_timedProbe 0) hgrants
  obtain ⟨_, record, -, -, hrecord, hgoal, -⟩ := hstored _ hfound
  obtain ⟨again, hrepeated, -, hhit, -⟩ := hagain _ hfound hsame fun _ _ => rfl
  exact ⟨hready, hgrants, ⟨record, hrecord, hgoal⟩, again, hrepeated, hhit⟩

/-- What is stored as a record of a key. -/
private def stored (key : String) : Entry :=
  .file (Utf8.ofString (Record.text ⟨1, key, .script, ⟨"0", 0⟩, .epoch⟩))

/-- A resolver with a cache, for sources that parse under any goal. -/
private def lenient (c : Cache) (declaration : Declaration) : FileResolver where
  grammar := (Grammar.constant "any" (.ok ())).lift
  cache := some c
  declaration := declaration

/-- Whether a key has a record before and after the file `/a.js` is resolved, if all changes are made. -/
private def recordsAround (c : Cache) (disk : Disk) (key : String) : Option (Bool × Bool) :=
  let w : World := { disk := disk }
  let call := (lenient c .disabled).resolve "/a.js" none
  if w.grants call.run then
    some ((c.recordIn w key).isSome, (c.recordIn (w.act call).2 key).isSome)
  else none

/-- The goals that `/a.js` resolves to when it is resolved twice, if all changes are made. -/
private def goalsTwice (c : Cache) (disk : Disk) (declaration : Declaration) :
    Option (Except Error Goal × Except Error Goal) :=
  let w : World := { disk := disk }
  let call := (lenient c declaration).resolve "/a.js" none
  let (first, after) := w.act call
  if w.grants call.run then
    some (first.map (·.resolution.goal), (after.act call).1.map (·.resolution.goal))
  else none

private theorem recordsAround_detour :
    let disk := (Disk.empty.put ["a.js"] (.file [])).put ["c"] .directory
    recordsAround ⟨"/n/../c"⟩ (disk.put [Cache.stem "k" ++ ".json", "c"] (stored "k")) "k" =
      some (false, true) := by
  decide +kernel

private theorem recordsAround_link :
    let disk := (Disk.empty.put ["a.js"] (.file [])).put ["c"] .directory
    recordsAround ⟨"/c"⟩ ((disk.put [Cache.stem "/a.js" ++ ".json", "c"] (stored "k")).put
      [Cache.stem "k" ++ ".json", "c"] (.link (Cache.stem "/a.js" ++ ".json"))) "k" =
        some (true, false) := by
  decide +kernel

/--
Three provisos that cannot be left out. A path that leads to records only by way of a directory that the
call makes shows a record of another key that was not seen before. A link in the directory loses the
record of another key, if that record is where the call stores its own. A manifest that is found only by
way of a directory that the call makes declares another goal for the call that follows.
-/
theorem resolve_remembered_provisos :
    (∃ c disk, Cache.stem "k" ≠ Cache.stem "/a.js" ∧ recordsAround c disk "k" = some (false, true)) ∧
    (∃ c disk, Cache.stem "k" ≠ Cache.stem "/a.js" ∧ recordsAround c disk "k" = some (true, false)) ∧
    ∃ c disk declaration, goalsTwice c disk declaration = some (.ok .script, .ok .module) := by
  have hstem : Cache.stem "k" ≠ Cache.stem "/a.js" := by decide +kernel
  have hmanifest : goalsTwice ⟨"/c"⟩ ((Disk.empty.put ["a.js"] (.file [])).put ["package.json"]
      (.file (Utf8.ofString "\x7b\"type\":\"module\"\x7d"))) { fileName := "c/../package.json" } =
        some (.ok .script, .ok .module) := by
    decide +kernel
  exact ⟨⟨_, _, hstem, recordsAround_detour⟩, ⟨_, _, hstem, recordsAround_link⟩, _, _, _, hmanifest⟩

end ParseGoal.FileResolver
