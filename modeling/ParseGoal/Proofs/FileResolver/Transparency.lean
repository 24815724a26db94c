import ParseGoal.Proofs.FileResolver.History

/-!
A cache beside no cache: what is remembered of a source decides between goals that it parses under, and
decides nothing else.
-/
namespace ParseGoal

namespace Resolver

variable {r : Resolver} {grammar : Grammar Id} {source : Bytes} {goal : Goal}

/-- A goal that is tried first is found if the source parses under it. -/
theorem isFirst_cached (h : r.Accepts grammar source goal) :
    r.IsFirst grammar source (r.goals (.cached goal)) [] goal :=
  ⟨⟨_, rfl⟩, nofun, h⟩

/-- A goal that is tried first in vain changes nothing in what is found. -/
theorem IsFirst.cached {before : List Goal} {first : Goal} (h : ¬ r.Accepts grammar source goal)
    (hfirst : r.IsFirst grammar source (r.goals .ambiguous) before first) :
    r.IsFirst grammar source (r.goals (.cached goal)) (goal :: before.filter (· ≠ goal)) first := by
  obtain ⟨⟨after, hgoals⟩, hbefore, haccepts⟩ := hfirst
  have hne : first ≠ goal := by
    rintro rfl
    exact h haccepts
  refine ⟨⟨after.filter (· ≠ goal), ?_⟩, ?_, haccepts⟩
  · change goal :: (r.goals .ambiguous).filter (· ≠ goal) = _
    simp [hgoals, hne]
  · intro other hother
    rcases List.mem_cons.1 hother with rfl | hother
    · exact h
    · exact hbefore other (List.mem_filter.1 hother).1

end Resolver

namespace FileResolver

variable {r : FileResolver} {c : Cache} {w : World} {unit : SourceUnit}

theorem recalled_eq_some (hcache : r.cache = some c) {goal : Goal} :
    (r.recalled w unit).1 = some goal ↔ c.markIn w unit.key = some (goal, unit.fingerprint) := by
  rw [recalled_of_some r w unit hcache, Cache.markIn]
  cases c.recordIn w unit.key with
  | none => simp
  | some record =>
    by_cases hfingerprint : record.fingerprint = unit.fingerprint
    · simp [hfingerprint]
    · simp [hfingerprint]

/-- What a resolver without a cache finds for a source, if it is not declared. -/
theorem answer_withoutCache (w : World) (unit : SourceUnit) : r.withoutCache.answer w unit none =
    r.resolver.resolve (r.grammar.within w) unit.key unit.bytes .ambiguous := by
  rw [answer, recalled_of_none _ _ _ rfl]
  rfl

/--
With a cache a goal is found if one is found without it. It is the same one unless another one that the
source parses under is remembered; then it is that one.
-/
theorem answer_beside {before : List Goal} {first : Goal}
    (hfirst : r.resolver.IsFirst (r.grammar.within w) unit.bytes
      (r.resolver.goals .ambiguous) before first) :
    let remembers goal := (r.recalled w unit).1 = some goal ∧
      r.resolver.Accepts (r.grammar.within w) unit.bytes goal
    ∃ again, r.answer w unit none = .ok again ∧
      (again.goal = first ↔ ∀ goal, remembers goal → goal = first) ∧
      ∀ goal, remembers goal → again.goal = goal := by
  intro remembers
  rw [answer]
  cases hrecalled : (r.recalled w unit).1 with
  | none =>
    have hnone (goal : Goal) : ¬ remembers goal := fun h => by simpa [hrecalled] using h.1
    refine ⟨_, Resolver.resolve_eq_ok unit.key hfirst, ⟨fun _ goal h => ?_, fun _ => rfl⟩, ?_⟩
    · exact absurd h (hnone goal)
    · exact fun goal h => absurd h (hnone goal)
  | some goal =>
    have honly (other : Goal) (h : remembers other) : goal = other :=
      Option.some.inj (hrecalled.symm.trans h.1)
    by_cases haccepts : r.resolver.Accepts (r.grammar.within w) unit.bytes goal
    · refine ⟨_, Resolver.resolve_eq_ok unit.key (Resolver.isFirst_cached haccepts), ⟨?_, ?_⟩, honly⟩
      · exact fun hgoal other h => (honly other h).symm.trans hgoal
      · exact fun h => h goal ⟨hrecalled, haccepts⟩
    · have hnone (other : Goal) : ¬ remembers other := fun h => haccepts (honly other h ▸ h.2)
      refine ⟨_, Resolver.resolve_eq_ok unit.key (hfirst.cached haccepts),
        ⟨fun _ other h => ?_, fun _ => rfl⟩, ?_⟩
      · exact absurd h (hnone other)
      · exact fun other h => absurd h (hnone other)

variable {path : Path}

/--
An undeclared call with a cache finds a goal or rejects the source just where one without a cache does.
It finds the same goal unless another one that the source parses under is remembered for its content;
then it finds that one. What is remembered after a history that started with nothing remembered of the
source is what calls have left of it.
-/
theorem resolve_beside_withoutCache (horder : r.resolver.order.Built) (hcache : r.cache = some c)
    (hquiet : r.grammar.IsQuiet) (hsource : w.source path = .ok unit)
    (hundeclared : w.declared r.declaration unit.key = .ok none) :
    let cached := (w.act (r.resolve path none)).1
    let plain := (w.act (r.withoutCache.resolve path none)).1
    let remembers goal := c.markIn w unit.key = some (goal, unit.fingerprint) ∧
      r.resolver.Accepts (r.grammar.within w) unit.bytes goal
    (∀ found, plain = .ok found → ∃ again, cached = .ok again ∧
      (again.resolution.goal = found.resolution.goal ↔
        ∀ goal, remembers goal → goal = found.resolution.goal) ∧
      ∀ goal, remembers goal → again.resolution.goal = goal) ∧
    (∀ e, plain = .error e → e.isRejection = true ∧
      ∃ other, cached = .error other ∧ other.isRejection = true) ∧
    ∀ start log, c.History start log w → c.recordIn start unit.key = none →
      c.markIn w unit.key = log.foldr (Mark.update unit.key) none := by
  have hdeclared : r.declaredIn w unit none = .ok none := hundeclared
  have hplain : (w.act (r.withoutCache.resolve path none)).1 = (r.withoutCache.answer w unit none).map
      fun found => ⟨unit.key, found, (r.withoutCache.recalled w unit).2⟩ :=
    act_resolve_fst (r := r.withoutCache) hquiet hsource hdeclared
  dsimp only
  rw [act_resolve_fst hquiet hsource hdeclared, hplain, answer_withoutCache]
  simp only [← recalled_eq_some hcache]
  rw [← and_assoc]
  constructor
  · rcases Resolver.exists_isFirst_or r.resolver (r.grammar.within w) unit.bytes
      (r.resolver.goals .ambiguous) with ⟨before, first, hfirst⟩ | hnone
    · obtain ⟨again, hagain, hsame, hkept⟩ := answer_beside hfirst
      rw [Resolver.resolve_eq_ok unit.key hfirst, hagain]
      refine ⟨fun found hfound => ?_, nofun⟩
      cases hfound
      exact ⟨_, rfl, hsame, hkept⟩
    · have hrejects : ∀ goal ∈ r.resolver.goals (leadOf none (r.recalled w unit).1),
          ¬ r.resolver.Accepts (r.grammar.within w) unit.bytes goal :=
        fun goal _ => hnone goal (Resolver.mem_goals horder rfl goal)
      obtain ⟨last, position, reason, hrejected⟩ := Resolver.resolve_eq_error unit.key horder hnone
      obtain ⟨last', position', reason', hagain⟩ :=
        Resolver.resolve_eq_error unit.key horder hrejects
      rw [hrejected, answer, hagain]
      refine ⟨nofun, fun e he => ?_⟩
      cases he
      exact ⟨rfl, _, rfl, rfl⟩
  · intro start log history hempty
    rw [history.markIn, Cache.markIn, hempty, Option.map_none]

/-- A goal that was forced before and is the first of the order decides nothing. -/
theorem resolve_beside_withoutCache_of_script :
    let c : Cache := ⟨"/c"⟩
    let start : World := { disk := Disk.empty.put ["a.js"] (.file [0x78]) }
    let r : FileResolver := { grammar := timedProbe 0, cache := some c }
    let w := (start.act (r.resolve "/a.js" (some .script))).2
    (∃ log, c.History start log w) ∧ c.recordIn start "/a.js" = none ∧
      w.source "/a.js" = .ok ⟨"/a.js", [0x78]⟩ ∧ w.declared r.declaration "/a.js" = .ok none ∧
      ∃ again found, (w.act (r.resolve "/a.js" none)).1 = .ok again ∧
        (w.act (r.withoutCache.resolve "/a.js" none)).1 = .ok found ∧
        again.resolution.goal = found.resolution.goal := by
  intro c start r w
  have hready : c.isReady start = true := by decide +kernel
  have hgrants : start.grants (r.resolve "/a.js" (some .script)).run = true := by decide +kernel
  have hfound : (start.act (r.resolve "/a.js" (some .script))).1 =
      .ok ⟨"/a.js", ⟨.script, [.script], .declared .script⟩, .miss⟩ := by decide +kernel
  have hbefore : start.source "/a.js" = .ok ⟨"/a.js", [0x78]⟩ := by decide +kernel
  have hsource : w.source "/a.js" = .ok ⟨"/a.js", [0x78]⟩ := by decide +kernel
  have hplain : (w.act (r.withoutCache.resolve "/a.js" none)).1 =
      .ok ⟨"/a.js", ⟨.script, [.script], .ambiguous⟩, .disabled⟩ := by decide +kernel
  have hdirectory : start.disk.directory? start.cwd c.directory = none := by decide +kernel
  have hempty := Cache.recordIn_of_no_directory hdirectory "/a.js"
  have history := (Cache.History.start hready).call (r := r) rfl (Grammar.isQuiet_timedProbe 0) hgrants
  rw [hfound, trace_of_ok hbefore] at history
  obtain ⟨hsame, -, hmark⟩ := resolve_beside_withoutCache (r := r) .ofKnown rfl
    (Grammar.isQuiet_timedProbe 0) hsource rfl
  obtain ⟨again, hagain, hiff, -⟩ := hsame _ hplain
  refine ⟨⟨_, history⟩, hempty, hsource, rfl, again, _, hagain, hplain, hiff.2 ?_⟩
  rintro goal ⟨hkept, -⟩
  rw [hmark _ _ history hempty, List.append_nil, List.foldr_cons, List.foldr_nil,
    Mark.update_self] at hkept
  cases hkept
  rfl

/--
A goal that was forced before decides for a source that parses under any: nothing is remembered at the
start, one call is forced to the second goal of the order, and the next finds this goal only with a cache.
-/
theorem resolve_beside_withoutCache_of_module : ∃ (c : Cache) (start w : World) (log : List Mark)
    (r : FileResolver), c.History start log w ∧ (∀ key, c.recordIn start key = none) ∧
      r.cache = some c ∧ w.declared r.declaration "/a.js" = .ok none ∧
      (w.act (r.resolve "/a.js" none)).1.map (·.resolution.goal) = .ok .module ∧
      (w.act (r.withoutCache.resolve "/a.js" none)).1.map (·.resolution.goal) = .ok .script := by
  let c : Cache := ⟨"/c"⟩
  let start : World := { disk := Disk.empty.put ["a.js"] (.file [0x78]) }
  let r : FileResolver := { grammar := timedProbe 0, cache := some c }
  have hready : c.isReady start = true := by decide +kernel
  have hdirectory : start.disk.directory? start.cwd c.directory = none := by decide +kernel
  have hgrants : start.grants (r.resolve "/a.js" (some .module)).run = true := by decide +kernel
  refine ⟨c, start, _, _, r,
    (Cache.History.start hready).call rfl (Grammar.isQuiet_timedProbe 0) hgrants,
    Cache.recordIn_of_no_directory hdirectory, rfl, rfl, ?_, ?_⟩ <;> decide +kernel

end FileResolver
end ParseGoal
