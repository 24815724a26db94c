import ParseGoal.Proofs.FileResolver.Call

/-!
Histories of calls that share a cache, with edits in between: what is remembered of a source is what
the last call on it left.
-/
namespace ParseGoal

/-- What is remembered of a key: a goal and a fingerprint, or nothing. -/
abbrev Mark : Type := String × Option (Goal × Fingerprint)

namespace Mark

/--
What is remembered of a key once a mark is left: the mark, if it is of the key, and nothing, if a record
of another key took the place of its record.
-/
def update (key : String) (mark : Mark) (before : Option (Goal × Fingerprint)) :
    Option (Goal × Fingerprint) :=
  if mark.1 = key then mark.2
  else if Cache.stem mark.1 = Cache.stem key ∧ mark.2.isSome then none
  else before

variable {key other : String} {kept before : Option (Goal × Fingerprint)}

theorem update_self : update key (key, kept) before = kept := if_pos rfl

theorem update_of_stem_ne (h : Cache.stem other ≠ Cache.stem key) :
    update key (other, kept) before = before := by
  have hkey : other ≠ key := fun heq => h (congrArg Cache.stem heq)
  rw [update, if_neg hkey, if_neg fun hboth => h hboth.1]

theorem update_none (h : other ≠ key) : update key (other, none) before = before := by
  rw [update, if_neg h, if_neg fun hboth => Bool.false_ne_true hboth.2]

theorem update_some {goal : Goal} {fingerprint : Fingerprint} (h : other ≠ key)
    (hstem : Cache.stem other = Cache.stem key) :
    update key (other, some (goal, fingerprint)) before = none := by
  rw [update, if_neg h, if_pos ⟨hstem, rfl⟩]

/-- Without confusion, the last mark of a key counts. -/
theorem foldr_update {log : List Mark} (h : ∀ mark ∈ log, Cache.KeptApart key mark.1) :
    log.foldr (update key) before = (log.lookup key).getD before := by
  induction log with
  | nil => rfl
  | cons mark log ih =>
    obtain ⟨other, kept⟩ := mark
    rw [List.foldr_cons, List.lookup_cons]
    by_cases hkey : other = key
    · rw [hkey, update_self, beq_self_eq_true]
      rfl
    · have hstem : Cache.stem other ≠ Cache.stem key :=
        fun heq => hkey (h _ List.mem_cons_self heq.symm).symm
      rw [update_of_stem_ne hstem, ih fun mark hmark => h mark (List.mem_cons_of_mem _ hmark)]
      rw [beq_false_of_ne (Ne.symm hkey)]

end Mark

namespace FileResolver

/-- What a call with some answer leaves of its source. -/
def trace (w : World) (path : Path) (answer : Except Error Outcome) : List Mark :=
  match w.source path, answer with
  | .ok unit, .ok found => [(unit.key, some (found.resolution.goal, unit.fingerprint))]
  | .ok unit, .error e => if e.isRejection then [(unit.key, none)] else []
  | .error _, _ => []

section

variable {w : World} {path : Path} {unit : SourceUnit} {e : Error}

theorem trace_of_ok (h : w.source path = .ok unit) (found : Outcome) :
    trace w path (.ok found) = [(unit.key, some (found.resolution.goal, unit.fingerprint))] := by
  unfold trace
  rw [h]

theorem trace_of_rejected (h : w.source path = .ok unit) (hrejection : e.isRejection = true) :
    trace w path (.error e) = [(unit.key, none)] := by
  unfold trace
  rw [h]
  exact if_pos hrejection

theorem trace_of_failed (hfailed : e.isRejection = false) : trace w path (.error e) = [] := by
  unfold trace
  cases w.source path with
  | error _ => rfl
  | ok unit =>
    dsimp only
    rw [hfailed, if_neg Bool.false_ne_true]

end

namespace Called

variable {r : FileResolver} {c : Cache} {w w' : World} {path : Path} {forced : Option Goal}
  {answer : Except Error Outcome}

theorem isReady (h : Called r c w path forced answer w') (hready : c.isReady w = true) :
    c.isReady w' = true := by
  cases h with
  | found hsource hdeclared hanswer hstore =>
    obtain ⟨word, hholding⟩ := Cache.holding_of_store hready hstore
    exact Cache.isReady_of_holding hready hholding (World.cwd_act w _)
  | dropped hsource hrejection hrecord hremove => exact Cache.isReady_remove hready hremove
  | unknown hsource hrejection hnone => exact hready
  | failed hfailed => exact hready

theorem recordIn_of_ok {found : Outcome} (h : Called r c w path forced (.ok found) w')
    (hready : c.isReady w = true) : ∃ unit record, w.source path = .ok unit ∧ found.key = unit.key ∧
      c.recordIn w' found.key = some record ∧ record.goal = found.resolution.goal ∧
      record.fingerprint = unit.fingerprint := by
  cases h with
  | @found unit declared resolution hsource hdeclared hanswer hstore =>
    obtain ⟨word, hholding⟩ := Cache.holding_of_store hready hstore
    have hrecord := Cache.recordIn_of_holding hready hholding (World.cwd_act w _) rfl
    exact ⟨unit, _, hsource, rfl, hrecord, rfl, rfl⟩

theorem recordIn_of_rejected {e : Error} (h : Called r c w path forced (.error e) w')
    (hready : c.isReady w = true) (hrejection : e.isRejection = true) :
    ∃ unit, w.source path = .ok unit ∧ c.recordIn w' unit.key = none := by
  cases h with
  | dropped hsource _ _ hremove => exact ⟨_, hsource, Cache.recordIn_remove hready hremove rfl⟩
  | unknown hsource _ hnone => exact ⟨_, hsource, hnone⟩
  | failed hfailed =>
    rw [hfailed] at hrejection
    cases hrejection

theorem eq_of_failed {e : Error} (h : Called r c w path forced (.error e) w')
    (hfailed : e.isRejection = false) : w' = w := by
  cases h with
  | dropped hsource hrejection hrecord hremove =>
    rw [hrejection] at hfailed
    cases hfailed
  | unknown hsource hrejection hnone => rfl
  | failed _ => rfl

theorem recordIn_of_ne (h : Called r c w path forced answer w') (hready : c.isReady w = true)
    {key : String} (hne : ∀ unit, w.source path = .ok unit → Cache.stem key ≠ Cache.stem unit.key) :
    c.recordIn w' key = c.recordIn w key := by
  cases h with
  | found hsource hdeclared hanswer hstore =>
    obtain ⟨word, hholding⟩ := Cache.holding_of_store hready hstore
    exact Cache.recordIn_of_holding_ne hready hholding (World.cwd_act w _) (hne _ hsource)
  | dropped hsource hrejection hrecord hremove =>
    exact Cache.recordIn_remove_ne hready hremove (hne _ hsource)
  | unknown hsource hrejection hnone => rfl
  | failed hfailed => rfl

/-- A mark that is left of the source is all that changes, once keys are told apart from it. -/
theorem markIn_of_trace (h : Called r c w path forced answer w') (hready : c.isReady w = true)
    {key : String} {unit : SourceUnit} {kept : Option (Goal × Fingerprint)}
    (hsource : w.source path = .ok unit) (htrace : trace w path answer = [(unit.key, kept)])
    (hself : c.markIn w' unit.key = kept)
    (hconfused : unit.key ≠ key → Cache.stem unit.key = Cache.stem key →
      c.markIn w' key = Mark.update key (unit.key, kept) (c.markIn w key)) :
    c.markIn w' key = (trace w path answer).foldr (Mark.update key) (c.markIn w key) := by
  rw [htrace, List.foldr_cons, List.foldr_nil]
  by_cases hkey : unit.key = key
  · rw [← hkey, hself, Mark.update_self]
  -- Keys with one stem share a file, so a call on the one may leave nothing of the other.
  by_cases hstem : Cache.stem unit.key = Cache.stem key
  · exact hconfused hkey hstem
  rw [Mark.update_of_stem_ne hstem]
  refine Cache.markIn_congr (h.recordIn_of_ne hready fun other hother => ?_)
  rw [hsource] at hother
  cases hother
  exact Ne.symm hstem

/-- A call leaves its trace in what is remembered, and nothing else. -/
theorem markIn (h : Called r c w path forced answer w') (hready : c.isReady w = true) (key : String) :
    c.markIn w' key = (trace w path answer).foldr (Mark.update key) (c.markIn w key) := by
  have hcalled := h
  cases answer with
  | ok found =>
    obtain ⟨unit, record, hsource, hkey, hrecord, hgoal, hfingerprint⟩ := h.recordIn_of_ok hready
    rw [hkey] at hrecord
    refine hcalled.markIn_of_trace hready hsource (trace_of_ok hsource found) ?_ fun hne hstem => ?_
    · rw [Cache.markIn, hrecord, Option.map_some, hgoal, hfingerprint]
    · rw [Mark.update_some hne hstem, Cache.markIn,
        Cache.recordIn_eq_none_of_stem hrecord hstem.symm hne.symm, Option.map_none]
  | error e =>
    cases h with
    | @dropped unit _ record hsource hrejection hrecord hremove =>
      refine hcalled.markIn_of_trace hready hsource (trace_of_rejected hsource hrejection) ?_
        fun hne hstem => ?_
      · rw [Cache.markIn, Cache.recordIn_remove hready hremove rfl, Option.map_none]
      · rw [Mark.update_none hne]
        refine Cache.markIn_congr ?_
        rw [Cache.recordIn_remove hready hremove hstem.symm,
          Cache.recordIn_eq_none_of_stem hrecord hstem.symm hne.symm]
    | @unknown unit _ hsource hrejection hnone =>
      refine hcalled.markIn_of_trace hready hsource (trace_of_rejected hsource hrejection) ?_
        fun hne hstem => ?_
      · rw [Cache.markIn, hnone, Option.map_none]
      · rw [Mark.update_none hne]
    | failed hfailed => rw [trace_of_failed hfailed, List.foldr_nil]

end Called
end FileResolver

namespace Cache

/--
Worlds that calls with a cache lead to, and edits that leave its records as they are; the log has what
the calls left of their sources, the last first.
-/
inductive History (c : Cache) (start : World) : List Mark → World → Prop where
  | start (hready : c.isReady start = true) : History c start [] start
  | call {log : List Mark} {w : World} {r : FileResolver} {path : Path} {forced : Option Goal}
      (history : History c start log w) (hcache : r.cache = some c) (hquiet : r.grammar.IsQuiet)
      (hgrants : w.grants (r.resolve path forced).run = true) :
      History c start (FileResolver.trace w path (w.act (r.resolve path forced)).1 ++ log)
        (w.act (r.resolve path forced)).2
  | edit {log : List Mark} {w w' : World} (history : History c start log w)
      (hready : c.isReady w' = true) (hsame : ∀ key, c.recordIn w' key = c.recordIn w key) :
      History c start log w'

namespace History

variable {c : Cache} {start w : World} {log : List Mark}

theorem isReady (history : History c start log w) : c.isReady w = true := by
  induction history with
  | start hready => exact hready
  | call history hcache hquiet hgrants ih =>
    exact (FileResolver.called hcache hquiet hgrants).isReady ih
  | edit history hready hsame ih => exact hready

/-- What is remembered of a key is what was at the start, updated by all that calls have left since. -/
theorem markIn (history : History c start log w) (key : String) :
    c.markIn w key = log.foldr (Mark.update key) (c.markIn start key) := by
  induction history with
  | start hready => rw [List.foldr_nil]
  | @call log w r path forced history hcache hquiet hgrants ih =>
    have hstep := (FileResolver.called hcache hquiet hgrants).markIn history.isReady key
    rw [hstep, ih, List.foldr_append]
  | edit history hready hsame ih => rw [Cache.markIn_congr (hsame key), ih]

/-- What is remembered of a key is what the last call on it left. -/
theorem markIn_of_keptApart (history : History c start log w) {key : String}
    (hapart : ∀ mark ∈ log, KeptApart key mark.1) :
    c.markIn w key = (log.lookup key).getD (c.markIn start key) := by
  rw [history.markIn, Mark.foldr_update hapart]

end History
end Cache
end ParseGoal
