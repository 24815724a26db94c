import ParseGoal.Proofs.FileResolver.Answer

/-!
A remembered goal is a hint: whatever is in the directory of a cache, a source that parses under
one goal only resolves to that goal, and one that parses under none is rejected.
-/
namespace ParseGoal

/-- The file of a source's key holds a record, and the record is of this source as it is now. -/
structure Cache.Holds (c : Cache) (w : World) (unit : SourceUnit) (record : Record) : Prop where
  stored : ∃ bytes, w.disk.read w.cwd (c.recordPath unit.key) = .ok bytes ∧
    Record.ofBytes? bytes = some record
  version : record.version = 1
  key : record.key = unit.key
  fingerprint : record.fingerprint = unit.fingerprint

theorem Cache.holds_iff {c : Cache} {w : World} {unit : SourceUnit} {record : Record} :
    c.Holds w unit record ↔
      c.recordIn w unit.key = some record ∧ record.fingerprint = unit.fingerprint := by
  rw [recordIn_eq_some]
  constructor
  · rintro ⟨⟨bytes, hread, hrecord⟩, hversion, hkey, hfingerprint⟩
    exact ⟨⟨bytes, hread, hrecord, hversion, hkey⟩, hfingerprint⟩
  · rintro ⟨⟨bytes, hread, hrecord, hversion, hkey⟩, hfingerprint⟩
    exact ⟨⟨bytes, hread, hrecord⟩, hversion, hkey, hfingerprint⟩

namespace FileResolver

variable {r : FileResolver} {c : Cache} {w : World} {path : Path} {unit : SourceUnit}

/-- What an undeclared source is tried with, and what the cache contributed to that. -/
inductive Hinted (c : Cache) (w : World) (unit : SourceUnit) : Lead → CacheStatus → Prop where
  | hit {record : Record} (h : c.Holds w unit record) : Hinted c w unit (.cached record.goal) .hit
  | miss (h : ∀ record, ¬ c.Holds w unit record) : Hinted c w unit .ambiguous .miss
  | stale (h : ∀ record, ¬ c.Holds w unit record) : Hinted c w unit .ambiguous .stale

theorem hinted_recalled (hcache : r.cache = some c) :
    Hinted c w unit (leadOf none (r.recalled w unit).1) (r.recalled w unit).2 := by
  rw [recalled_of_some r w unit hcache]
  cases hrecord : c.recordIn w unit.key with
  | none => exact .miss fun record h => by simpa [hrecord] using (Cache.holds_iff.1 h).1
  | some record =>
    by_cases hfingerprint : record.fingerprint = unit.fingerprint
    · simp only [if_pos hfingerprint]
      exact .hit (Cache.holds_iff.2 ⟨hrecord, hfingerprint⟩)
    · have hnone : ∀ other, ¬ c.Holds w unit other := by
        intro other h
        obtain ⟨hother, hvalid⟩ := Cache.holds_iff.1 h
        rw [hrecord] at hother
        cases hother
        exact hfingerprint hvalid
      simp only [if_neg hfingerprint]
      exact .stale hnone

theorem Hinted.isDeclared {lead : Lead} {status : CacheStatus} (h : Hinted c w unit lead status) :
    lead.isDeclared = false := by
  cases h <;> rfl

/--
Whatever a cache holds, an undeclared source that parses under one goal only resolves to it, and one
that parses under none is rejected. A record changes the order of the attempts only if it is of the
source's key and content.
-/
theorem resolve_undeclared (horder : r.resolver.order.Built) (hquiet : r.grammar.IsQuiet)
    (hcache : r.cache = some c) (hsource : w.source path = .ok unit)
    (hundeclared : w.declared r.declaration unit.key = .ok none) :
    let answer := (w.act (r.resolve path none)).1
    let accepts := r.resolver.Accepts (r.grammar.within w) unit.bytes
    (∀ goal, (∀ other, accepts other ↔ other = goal) →
      ∃ found, answer = .ok found ∧ found.resolution.goal = goal) ∧
    ((∀ goal, ¬ accepts goal) → ∃ goal position reason,
      answer = .error (.rejected goal position reason false)) ∧
    ∃ lead status, Hinted c w unit lead status ∧
      answer = (r.resolver.resolve (r.grammar.within w) unit.key unit.bytes lead).map
        (fun found => ⟨unit.key, found, status⟩) ∧
      ∀ found, answer = .ok found → found.resolution.lead = lead ∧ found.cache = status ∧
        found.resolution.attempts.head? = (r.resolver.goals lead).head? := by
  have hhinted : Hinted c w unit (leadOf none (r.recalled w unit).1) (r.recalled w unit).2 :=
    hinted_recalled hcache
  have hdeclared : r.declaredIn w unit none = .ok none := hundeclared
  dsimp only
  rw [act_resolve_fst hquiet hsource hdeclared]
  unfold answer
  generalize leadOf none (r.recalled w unit).1 = lead at hhinted ⊢
  generalize (r.recalled w unit).2 = status at hhinted ⊢
  rcases Resolver.exists_isFirst_or r.resolver (r.grammar.within w) unit.bytes
    (r.resolver.goals lead) with ⟨before, first, hfirst⟩ | hnone
  · have hanswer := Resolver.resolve_eq_ok unit.key hfirst
    refine ⟨?_, ?_, lead, status, hhinted, rfl, ?_⟩ <;> rw [hanswer]
    · intro goal honly
      exact ⟨_, rfl, (honly first).1 hfirst.2.2⟩
    · intro hnone
      exact absurd hfirst.2.2 (hnone first)
    · intro found hfound
      cases hfound
      obtain ⟨after, hgoals⟩ := hfirst.1
      refine ⟨rfl, rfl, ?_⟩
      rw [hgoals]
      cases before <;> rfl
  · obtain ⟨last, position, reason, hanswer⟩ := Resolver.resolve_eq_error unit.key horder hnone
    rw [hhinted.isDeclared] at hanswer
    refine ⟨?_, ?_, lead, status, hhinted, rfl, ?_⟩ <;> rw [hanswer]
    · intro goal honly
      exact absurd ((honly goal).2 rfl)
        (hnone goal (Resolver.mem_goals horder hhinted.isDeclared goal))
    · intro _
      exact ⟨last, position, reason, rfl⟩
    · intro found hfound
      cases hfound

/-- A record that names the other goal, for just this key and content, is overruled. -/
theorem resolve_undeclared_of_misled :
    let record : Record := ⟨1, "/a.js", .module, .ofBytes [0x78], .epoch⟩
    let kept : Entry := .file (Utf8.ofString record.text)
    let disk := (Disk.empty.put ["c"] .directory).put [Cache.stem "/a.js" ++ ".json", "c"] kept
    let w : World := { disk := disk.put ["a.js"] (.file [0x78]) }
    let grammar : Grammar Id := ⟨"scripts", fun _ goal =>
      if goal = .script then .ok () else .error ⟨.start, "no module"⟩⟩
    let r : FileResolver := { grammar := grammar.lift, cache := some ⟨"/c"⟩ }
    w.source "/a.js" = .ok ⟨"/a.js", [0x78]⟩ ∧
      ∃ found, (w.act (r.resolve "/a.js" none)).1 = .ok found ∧ found.resolution.goal = .script := by
  intro record kept disk w grammar r
  have hsource : w.source "/a.js" = .ok ⟨"/a.js", [0x78]⟩ := by decide +kernel
  refine ⟨hsource, ?_⟩
  have hundeclared : w.declared r.declaration "/a.js" = .ok none := rfl
  refine (resolve_undeclared (r := r) .ofKnown (Grammar.isQuiet_lift _) rfl hsource hundeclared).1
    .script fun other => ?_
  cases other with
  | script => exact ⟨fun _ => rfl, fun _ => rfl⟩
  | module => exact ⟨fun h => (nomatch h), fun h => (nomatch h)⟩

end FileResolver
end ParseGoal
