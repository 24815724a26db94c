import ParseGoal.Grammar.Deadline
import ParseGoal.Proofs.Resolution

/-!
A deadline for attempts makes no goal acceptable. An attempt that is late or dies is passed over as if its
goal had been rejected, and one that finishes counts as it does without the deadline.
-/
namespace ParseGoal

namespace Fate

variable {fate : Fate} {limit : Nat} {answer : Verdict}

theorem verdict_eq_ok_iff : fate.verdict limit answer = .ok () ↔ fate = .finishes ∧ answer = .ok () := by
  cases fate <;> simp [verdict]

/-- How an attempt that ends without an answer is reported. -/
def Reports (limit : Nat) (fate : Fate) (reason : String) : Prop :=
  fate = .timesOut ∧ reason = s!"parse attempt timed out after {limit} ms" ∨
    fate = .dies ∧ reason = "parse attempt aborted"

/-- An attempt without an answer fails at the start of the source. -/
theorem exists_reports (h : fate ≠ .finishes) (limit : Nat) (answer : Verdict) : ∃ reason,
    fate.Reports limit reason ∧ fate.verdict limit answer = .error ⟨⟨1, 1, 0⟩, reason⟩ := by
  cases fate with
  | finishes => contradiction
  | timesOut => exact ⟨_, .inl ⟨rfl, rfl⟩, rfl⟩
  | dies => exact ⟨_, .inr ⟨rfl, rfl⟩, rfl⟩

end Fate

/-- A grammar with a deadline whose attempts end as `fates` says, by their number from zero on. -/
def Grammar.underFates (inner : Grammar Id) (limit : Nat) (fates : Nat → Fate) :
    Grammar (StateM (List Call)) :=
  inner.recorded.limited limit fun _ _ => do return fates ((← get).length - 1)

theorem Grammar.run_underFates (inner : Grammar Id) (limit : Nat) (fates : Nat → Fate) (bytes : Bytes)
    (goal : Goal) (calls : List Call) :
    ((inner.underFates limit fates).attempt bytes goal).run calls =
      ((fates calls.length).verdict limit (inner.attempt bytes goal), calls ++ [⟨goal, bytes⟩]) := by
  have hnumber : (calls ++ [Call.mk goal bytes]).length - 1 = calls.length := by simp
  rw [← hnumber]
  rfl

namespace Resolver

/-- The same deadline for the goals of a plan: no goal is tried twice, so an attempt is told by its goal. -/
def inTurn (r : Resolver) (lead : Lead) (inner : Grammar Id) (limit : Nat) (fates : Nat → Fate) : Grammar Id :=
  inner.limited limit fun _ goal => pure (fates ((r.goals lead).idxOf goal))

variable {r : Resolver} {lead : Lead} {inner : Grammar Id} {limit : Nat} {fates : Nat → Fate} {source : Bytes}

section

variable {n : Nat} {goal : Goal}

theorem attempt_inTurn (hr : r.order.Built) (h : (r.goals lead)[n]? = some goal) (bytes : Bytes) :
    (r.inTurn lead inner limit fates).attempt bytes goal =
      (fates n).verdict limit (inner.attempt bytes goal) := by
  obtain ⟨hn, rfl⟩ := List.getElem?_eq_some_iff.1 h
  have hplace : (r.goals lead).idxOf (r.goals lead)[n] = n := (nodup_goals hr lead).idxOf_getElem n hn
  change (fates ((r.goals lead).idxOf (r.goals lead)[n])).verdict limit _ = _
  rw [hplace]

theorem accepts_inTurn (hr : r.order.Built) (h : (r.goals lead)[n]? = some goal) :
    r.Accepts (r.inTurn lead inner limit fates) source goal ↔
      fates n = .finishes ∧ r.Accepts inner source goal := by
  unfold Accepts
  rw [attempt_inTurn hr h]
  exact Fate.verdict_eq_ok_iff

end

theorem tryEach_underFates (hr : r.order.Built) (key : String) {done rest : List Goal}
    (hgoals : r.goals lead = done ++ rest) (tried : List Goal) {calls : List Call}
    (hcalls : calls.length = done.length) :
    (r.tryEach (inner.underFates limit fates) key source lead tried (Candidate.ofGoals rest)).run calls =
      (r.tryEach (r.inTurn lead inner limit fates).recorded key source lead tried
        (Candidate.ofGoals rest)).run calls := by
  induction rest generalizing done tried calls with
  | nil => rfl
  | cons goal rest ih =>
    have hat : (r.goals lead)[calls.length]? = some goal := by simp [hgoals, hcalls]
    have hattempt := inner.run_underFates limit fates (r.bootstrap source goal) goal calls
    have hrecorded : ((r.inTurn lead inner limit fates).recorded.attempt (r.bootstrap source goal) goal).run
        calls = ((fates calls.length).verdict limit (inner.attempt (r.bootstrap source goal) goal),
          calls ++ [⟨goal, r.bootstrap source goal⟩]) := by
      rw [← attempt_inTurn hr hat]
      rfl
    rw [Candidate.ofGoals_cons]
    simp only [tryEach, StateT.run_bind, hattempt, hrecorded]
    cases (fates calls.length).verdict limit (inner.attempt (r.bootstrap source goal) goal) with
    | ok => rfl
    | error failure =>
      cases rest.isEmpty with
      | true => rfl
      | false => exact ih (hgoals.trans (List.append_cons ..)) _ (by simp [hcalls])

variable (r inner limit fates source lead) in
theorem resolve_underFates (hr : r.order.Built) (key : String) :
    (r.resolve (inner.underFates limit fates) key source lead).run [] =
      (r.resolve (r.inTurn lead inner limit fates).recorded key source lead).run [] :=
  tryEach_underFates hr key (List.nil_append (r.goals lead)).symm [] rfl

/-- What is found under a deadline parses, and each goal before it was rejected or has no answer. -/
theorem parses_of_isFirst_inTurn (hr : r.order.Built) {before : List Goal} {goal : Goal}
    (h : r.IsFirst (r.inTurn lead inner limit fates) source (r.goals lead) before goal) :
    (fates before.length = .finishes ∧ r.Accepts inner source goal) ∧ ∀ n other, before[n]? = some other →
      ¬ r.Accepts inner source other ∨ fates n = .timesOut ∨ fates n = .dies := by
  obtain ⟨⟨after, hgoals⟩, hbefore, hgoal⟩ := h
  have hlast : (r.goals lead)[before.length]? = some goal := by simp [hgoals]
  refine ⟨(accepts_inTurn hr hlast).1 hgoal, fun n other hother => ?_⟩
  have hn : n < before.length := (List.getElem?_eq_some_iff.1 hother).1
  have hat : (r.goals lead)[n]? = some other := by rw [hgoals, List.getElem?_append_left hn, hother]
  have hrejects := hbefore other (List.mem_of_getElem? hother)
  rw [accepts_inTurn hr hat, not_and] at hrejects
  cases hfate : fates n with
  | finishes => exact .inl (hrejects hfate)
  | timesOut => exact .inr (.inl rfl)
  | dies => exact .inr (.inr rfl)

theorem resolve_inTurn_of_finishes (hr : r.order.Built) (key : String)
    (h : ∀ n < ((r.resolve (r.inTurn lead inner limit fates).recorded key source lead).run []).2.length,
      fates n = .finishes) :
    (r.resolve (r.inTurn lead inner limit fates).recorded key source lead).run [] =
      (r.resolve inner.recorded key source lead).run [] := by
  symm
  apply resolve_congr hr key lead
  obtain ⟨made, ⟨later, hgoals⟩, hcalls⟩ :=
    exists_calls r (r.inTurn lead inner limit fates) source hr key lead
  rw [hcalls] at h ⊢
  intro call hcall
  obtain ⟨goal, hgoal, rfl⟩ := List.mem_map.1 hcall
  obtain ⟨n, hn, rfl⟩ := List.getElem_of_mem hgoal
  have hat : (r.goals lead)[n]? = some made[n] := by
    rw [← hgoals, List.getElem?_append_left hn, List.getElem?_eq_getElem hn]
  have hfate : fates n = .finishes := h n (by simpa using hn)
  change _ = (r.inTurn lead inner limit fates).attempt _ made[n]
  rw [attempt_inTurn hr hat, hfate]
  rfl

theorem resolve_inTurn_of_none (hr : r.order.Built) (key : String)
    (h : ∀ n < (r.goals lead).length, fates n ≠ .finishes) : ∃ last reason,
      (r.goals lead).getLast? = some last ∧ (fates ((r.goals lead).length - 1)).Reports limit reason ∧
        ((r.resolve (r.inTurn lead inner limit fates).recorded key source lead).run []).1 =
          .error (.rejected last ⟨1, 1, 0⟩ reason lead.isDeclared) := by
  have hnone : ∀ goal ∈ r.goals lead, ¬ r.Accepts (r.inTurn lead inner limit fates) source goal := by
    intro goal hgoal haccepts
    obtain ⟨n, hn, rfl⟩ := List.getElem_of_mem hgoal
    exact h n hn ((accepts_inTurn hr (List.getElem?_eq_getElem hn)).1 haccepts).1
  obtain ⟨last, failure, hlast, hfailure, hrun⟩ := resolve_of_rejects hr key hnone
  have hlength : 0 < (r.goals lead).length := List.length_pos_iff.2 (goals_ne_nil hr lead)
  obtain ⟨reason, hreports, hverdict⟩ := Fate.exists_reports (h ((r.goals lead).length - 1) (by omega)) limit
    (inner.attempt (r.bootstrap source last) last)
  rw [attempt_inTurn hr (List.getLast?_eq_getElem? ▸ hlast), hverdict] at hfailure
  obtain rfl := Except.error.inj hfailure
  exact ⟨last, reason, hlast, hreports, congrArg Prod.fst hrun⟩

/--
However attempts end, a source that resolves under a deadline parses under the goal that is found, and each goal
before it was rejected or its attempt was late or died. If all attempts finish, everything is as without the
deadline. If none does, the last goal of the plan is reported, at the start of the source.
-/
theorem resolve_limited (r : Resolver) (hr : r.order.Built) (inner : Grammar Id) (limit : Nat)
    (fates : Nat → Fate) (key : String) (source : Bytes) (lead : Lead) :
    let goals := (r.plan lead).map (·.goal)
    let answer := (r.resolve (inner.underFates limit fates) key source lead).run []
    (∀ found, answer.1 = .ok found → ∃ before, found.attempts = before ++ [found.goal] ∧
      fates before.length = .finishes ∧
      inner.attempt (r.bootstrap source found.goal) found.goal = .ok () ∧
      ∀ n goal, before[n]? = some goal →
        (∃ failure, inner.attempt (r.bootstrap source goal) goal = .error failure) ∨
          fates n = .timesOut ∨ fates n = .dies) ∧
    ((∀ n < answer.2.length, fates n = .finishes) →
      answer = (r.resolve inner.recorded key source lead).run []) ∧
    ((∀ n < goals.length, fates n ≠ .finishes) → ∃ last reason, goals.getLast? = some last ∧
      (fates (goals.length - 1)).Reports limit reason ∧
      answer.1 = .error (.rejected last ⟨1, 1, 0⟩ reason lead.isDeclared)) := by
  dsimp only
  rw [map_goal_plan, resolve_underFates r lead inner limit fates source hr key]
  refine ⟨fun found hfound => ?_, resolve_inTurn_of_finishes hr key, resolve_inTurn_of_none hr key⟩
  rcases exists_isFirst_or r (r.inTurn lead inner limit fates) source (r.goals lead) with
    ⟨before, goal, hfirst⟩ | hnone
  · rw [resolve_of_isFirst key hfirst] at hfound
    obtain rfl := Except.ok.inj hfound
    obtain ⟨⟨hfate, hparses⟩, hbefore⟩ := parses_of_isFirst_inTurn hr hfirst
    exact ⟨before, rfl, hfate, hparses, fun n goal hgoal => (hbefore n goal hgoal).imp_left not_accepts_iff.1⟩
  · obtain ⟨last, failure, -, -, hrun⟩ := resolve_of_rejects hr key hnone
    rw [hrun] at hfound
    cases hfound

/-- A text that would be a script is found to be a module if the first attempt is late, and neither if all die. -/
theorem resolve_limited_of_late :
    let lenient : Grammar Id := .constant "lenient" (.ok ())
    let late : Nat → Fate := fun n => if n = 0 then .timesOut else .finishes
    let tried : List Goal := [.script, .module]
    ((({} : Resolver).resolve (lenient.underFates 20 late) "a.js" [] .ambiguous).run []).1 =
        .ok ⟨.module, tried, .ambiguous⟩ ∧
      (∃ before, tried = before ++ [.module] ∧ late before.length = .finishes) ∧
      ∃ last reason, tried.getLast? = some last ∧ Fate.dies.Reports 20 reason ∧
        ((({} : Resolver).resolve (lenient.underFates 20 fun _ => .dies) "a.js" [] .ambiguous).run []).1 =
          .error (.rejected last ⟨1, 1, 0⟩ reason false) := by
  intro lenient late tried
  have hfound : ((({} : Resolver).resolve (lenient.underFates 20 late) "a.js" [] .ambiguous).run []).1 =
      .ok ⟨.module, tried, .ambiguous⟩ := rfl
  obtain ⟨hok, -, -⟩ := resolve_limited {} .ofKnown lenient 20 late "a.js" [] .ambiguous
  obtain ⟨before, hbefore, hfate, -, -⟩ := hok _ hfound
  obtain ⟨-, -, hnone⟩ := resolve_limited {} .ofKnown lenient 20 (fun _ => .dies) "a.js" [] .ambiguous
  exact ⟨hfound, ⟨before, hbefore, hfate⟩, hnone fun _ _ => Fate.noConfusion⟩

end Resolver
end ParseGoal
