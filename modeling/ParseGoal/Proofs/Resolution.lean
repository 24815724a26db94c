import Mathlib.Data.List.Nodup
import ParseGoal.Proofs.Order
import ParseGoal.Resolution

/-!
What resolving a source does, told by its plan: the goals are tried in order until one parses, each
on the source as it is prepared for that goal, and only the last failure is reported.
-/
namespace ParseGoal

theorem Candidate.ofGoals_cons (goal : Goal) (rest : List Goal) :
    Candidate.ofGoals (goal :: rest) = ⟨goal, rest.isEmpty⟩ :: Candidate.ofGoals rest := by
  cases rest <;> rfl

theorem Candidate.map_goal_ofGoals (goals : List Goal) :
    (Candidate.ofGoals goals).map (·.goal) = goals := by
  induction goals with
  | nil => rfl
  | cons goal rest ih => rw [ofGoals_cons, List.map_cons, ih]

namespace Resolver

variable (r : Resolver) (grammar : Grammar Id) (source : Bytes)

/-- Whether the source, prepared for a goal, parses under it. -/
def Accepts (goal : Goal) : Prop := grammar.attempt (r.bootstrap source goal) goal = .ok ()

/-- The attempt that is made under a goal. -/
def call (goal : Goal) : Call := ⟨goal, r.bootstrap source goal⟩

variable {r grammar source}

@[simp] theorem map_goal_call (goals : List Goal) :
    (goals.map (r.call source)).map (·.goal) = goals := by
  simp [Function.comp_def, call]

theorem not_accepts_iff {goal : Goal} : ¬ r.Accepts grammar source goal ↔
    ∃ failure, grammar.attempt (r.bootstrap source goal) goal = .error failure := by
  unfold Accepts
  cases grammar.attempt (r.bootstrap source goal) goal with
  | ok => simp
  | error failure => simp

/-- Goals that do not parse are passed over, as long as others follow. -/
private theorem tryEach_pass (key : String) (lead : Lead) {before after : List Goal}
    (hafter : after ≠ []) (hbefore : ∀ goal ∈ before, ¬ r.Accepts grammar source goal)
    (tried : List Goal) (calls : List Call) :
    (r.tryEach grammar.recorded key source lead tried (Candidate.ofGoals (before ++ after))).run calls =
      (r.tryEach grammar.recorded key source lead (tried ++ before) (Candidate.ofGoals after)).run
        (calls ++ before.map (r.call source)) := by
  induction before generalizing tried calls with
  | nil => simp
  | cons goal before ih =>
    obtain ⟨failure, hfailure⟩ := not_accepts_iff.1 (hbefore goal (by simp))
    have hmore : (before ++ after).isEmpty = false := by simp [hafter]
    have hrest := ih (fun goal hgoal => hbefore goal (List.mem_cons_of_mem _ hgoal))
      (tried ++ [goal]) (calls ++ [r.call source goal])
    rw [List.cons_append, Candidate.ofGoals_cons, hmore]
    simpa [tryEach, Grammar.recorded, hfailure, call] using hrest

theorem tryEach_of_accepts (key : String) (lead : Lead) {before after : List Goal} {goal : Goal}
    (hbefore : ∀ other ∈ before, ¬ r.Accepts grammar source other)
    (hgoal : r.Accepts grammar source goal) :
    (r.tryEach grammar.recorded key source lead []
        (Candidate.ofGoals (before ++ goal :: after))).run [] =
      (.ok ⟨goal, before ++ [goal], lead⟩, (before ++ [goal]).map (r.call source)) := by
  rw [tryEach_pass key lead (by simp) hbefore, Candidate.ofGoals_cons]
  unfold Accepts at hgoal
  simp [tryEach, Grammar.recorded, hgoal, call]
  rfl

theorem tryEach_of_rejects (key : String) (lead : Lead) {before : List Goal} {last : Goal}
    {failure : Failure} (hbefore : ∀ goal ∈ before, ¬ r.Accepts grammar source goal)
    (hlast : grammar.attempt (r.bootstrap source last) last = .error failure) :
    (r.tryEach grammar.recorded key source lead []
        (Candidate.ofGoals (before ++ [last]))).run [] =
      (.error (.rejected last failure.position failure.reason lead.isDeclared),
        (before ++ [last]).map (r.call source)) := by
  rw [tryEach_pass key lead (by simp) hbefore, Candidate.ofGoals_cons]
  simp [tryEach, Grammar.recorded, hlast, call]
  rfl

variable (r grammar source) in
/-- Whether a goal is the first of some goals under which the source parses; `before` come before it. -/
def IsFirst (goals before : List Goal) (goal : Goal) : Prop :=
  (∃ after, goals = before ++ goal :: after) ∧
    (∀ other ∈ before, ¬ r.Accepts grammar source other) ∧ r.Accepts grammar source goal

variable (r grammar source) in
theorem exists_isFirst_or (goals : List Goal) :
    (∃ before goal, r.IsFirst grammar source goals before goal) ∨
      ∀ goal ∈ goals, ¬ r.Accepts grammar source goal := by
  induction goals with
  | nil => simp
  | cons goal rest ih =>
    by_cases hgoal : r.Accepts grammar source goal
    · exact .inl ⟨[], goal, ⟨rest, rfl⟩, by simp, hgoal⟩
    rcases ih with ⟨before, first, ⟨after, rfl⟩, hbefore, hfirst⟩ | hnone
    · refine .inl ⟨goal :: before, first, ⟨after, rfl⟩, ?_, hfirst⟩
      simpa [hgoal] using hbefore
    · exact .inr (by simpa [hgoal] using hnone)

theorem IsFirst.mem {goals before : List Goal} {goal other : Goal}
    (h : r.IsFirst grammar source goals before goal) (hother : other ∈ before ++ [goal]) :
    other ∈ goals := by
  obtain ⟨⟨after, rfl⟩, -⟩ := h
  rw [List.append_cons]
  exact List.mem_append_left _ hother

theorem IsFirst.nodup {goals before : List Goal} {goal : Goal}
    (h : r.IsFirst grammar source goals before goal) (hgoals : goals.Nodup) :
    (before ++ [goal]).Nodup := by
  obtain ⟨⟨after, rfl⟩, -⟩ := h
  rw [List.append_cons] at hgoals
  exact hgoals.of_append_left

theorem map_goal_plan (lead : Lead) : (r.plan lead).map (·.goal) = r.goals lead :=
  Candidate.map_goal_ofGoals _

theorem nodup_goals (hr : r.order.Built) (lead : Lead) : (r.goals lead).Nodup := by
  cases lead with
  | declared goal => simp [goals]
  | cached goal => exact (Order.Built.ledBy hr goal).nodup (by decide)
  | ambiguous => exact hr.nodup

theorem goals_ne_nil (hr : r.order.Built) (lead : Lead) : r.goals lead ≠ [] := by
  cases lead with
  | declared goal => simp [goals]
  | cached goal => simp [goals, Order.ledBy]
  | ambiguous => exact List.ne_nil_of_mem (hr.mem .script)

theorem mem_goals (hr : r.order.Built) {lead : Lead} (hlead : lead.isDeclared = false)
    (goal : Goal) : goal ∈ r.goals lead := by
  cases lead with
  | declared goal => simp [Lead.isDeclared] at hlead
  | cached other => exact (Order.Built.ledBy hr other).mem Goal.mem_all goal
  | ambiguous => exact hr.mem goal

theorem resolve_of_isFirst (key : String) {lead : Lead} {before : List Goal} {goal : Goal}
    (h : r.IsFirst grammar source (r.goals lead) before goal) :
    (r.resolve grammar.recorded key source lead).run [] =
      (.ok ⟨goal, before ++ [goal], lead⟩, (before ++ [goal]).map (r.call source)) := by
  obtain ⟨⟨after, hgoals⟩, hbefore, hgoal⟩ := h
  rw [resolve, plan, hgoals]
  exact tryEach_of_accepts key lead hbefore hgoal

theorem resolve_of_rejects (hr : r.order.Built) (key : String) {lead : Lead}
    (h : ∀ goal ∈ r.goals lead, ¬ r.Accepts grammar source goal) :
    ∃ last failure, (r.goals lead).getLast? = some last ∧
      grammar.attempt (r.bootstrap source last) last = .error failure ∧
      (r.resolve grammar.recorded key source lead).run [] =
        (.error (.rejected last failure.position failure.reason lead.isDeclared),
          (r.goals lead).map (r.call source)) := by
  obtain ⟨before, last, hgoals⟩ :=
    (r.goals lead).eq_nil_or_concat.resolve_left (goals_ne_nil hr lead)
  obtain ⟨failure, hfailure⟩ := not_accepts_iff.1 (h last (by simp [hgoals]))
  have hbefore : ∀ goal ∈ before, ¬ r.Accepts grammar source goal := by
    intro goal hgoal
    exact h goal (by simp [hgoals, hgoal])
  rw [List.concat_eq_append] at hgoals
  refine ⟨last, failure, by simp [hgoals], hfailure, ?_⟩
  rw [resolve, plan, hgoals]
  exact tryEach_of_rejects key lead (hbefore) hfailure

variable (r grammar source) in
/-- The goals that are called for are the first ones of the plan. -/
theorem exists_calls (hr : r.order.Built) (key : String) (lead : Lead) :
    ∃ made, made <+: r.goals lead ∧
      ((r.resolve grammar.recorded key source lead).run []).2 = made.map (r.call source) := by
  rcases exists_isFirst_or r grammar source (r.goals lead) with ⟨before, goal, hfirst⟩ | hnone
  · rw [resolve_of_isFirst key hfirst]
    obtain ⟨after, hgoals⟩ := hfirst.1
    exact ⟨before ++ [goal], ⟨after, by simp [hgoals]⟩, rfl⟩
  · obtain ⟨last, failure, -, -, hrun⟩ := resolve_of_rejects hr key hnone
    exact ⟨r.goals lead, List.prefix_rfl, by rw [hrun]⟩

/-- Only what a grammar says of the attempts that are made counts. -/
theorem resolve_congr (hr : r.order.Built) (key : String) (lead : Lead) {other : Grammar Id}
    (h : ∀ call ∈ ((r.resolve grammar.recorded key source lead).run []).2,
      other.attempt call.bytes call.goal = grammar.attempt call.bytes call.goal) :
    (r.resolve other.recorded key source lead).run [] =
      (r.resolve grammar.recorded key source lead).run [] := by
  have hsame {made : List Goal} (h : ∀ call ∈ made.map (r.call source),
      other.attempt call.bytes call.goal = grammar.attempt call.bytes call.goal) : ∀ goal ∈ made,
      other.attempt (r.bootstrap source goal) goal = grammar.attempt (r.bootstrap source goal) goal :=
    fun goal hgoal => h (r.call source goal) (List.mem_map_of_mem hgoal)
  rcases exists_isFirst_or r grammar source (r.goals lead) with ⟨before, goal, hfirst⟩ | hnone
  · rw [resolve_of_isFirst key hfirst] at h ⊢
    obtain ⟨hsplit, hbefore, hgoal⟩ := hfirst
    apply resolve_of_isFirst
    refine ⟨hsplit, fun goal' hmem => ?_, ?_⟩
    · rw [Accepts, hsame h goal' (List.mem_append_left _ hmem)]
      exact hbefore goal' hmem
    · rw [Accepts, hsame h goal (by simp)]
      exact hgoal
  · obtain ⟨last, failure, hlast, hfailure, hrun⟩ := resolve_of_rejects hr key hnone
    rw [hrun] at h ⊢
    have hnone' : ∀ goal ∈ r.goals lead, ¬ r.Accepts other source goal := fun goal hmem => by
      rw [Accepts, hsame h goal hmem]
      exact hnone goal hmem
    obtain ⟨last', failure', hlast', hfailure', hrun'⟩ := resolve_of_rejects hr key hnone'
    obtain rfl : last = last' := Option.some.inj (hlast.symm.trans hlast')
    rw [hsame h last (List.mem_of_getLast? hlast), hfailure] at hfailure'
    rw [hrun', Except.error.inj hfailure']

/--
A source resolves to the first goal of its plan that it parses under, after one attempt for each
goal up to there. If there is none, each goal is attempted once and the last failure is the answer.
-/
theorem resolve_plan (r : Resolver) (hr : r.order.Built) (grammar : Grammar Id) (key : String)
    (source : Bytes) (lead : Lead) :
    let goals := (r.plan lead).map (·.goal)
    let answer := (r.resolve grammar.recorded key source lead).run []
    (∀ goal, (∃ found, answer.1 = .ok found ∧ found.goal = goal) ↔
      ∃ before, r.IsFirst grammar source goals before goal) ∧
    (∀ found, answer.1 = .ok found → ∃ before,
      r.IsFirst grammar source goals before found.goal ∧
      found.attempts = before ++ [found.goal] ∧ found.lead = lead ∧
      answer.2 = found.attempts.map fun goal => ⟨goal, r.bootstrap source goal⟩) ∧
    (∀ e, answer.1 = .error e → ∃ goal failure declared,
      goals.getLast? = some goal ∧
      grammar.attempt (r.bootstrap source goal) goal = .error failure ∧
      e = .rejected goal failure.position failure.reason declared ∧
      (declared = true ↔ ∃ goal, lead = .declared goal) ∧
      answer.2 = goals.map fun goal => ⟨goal, r.bootstrap source goal⟩) ∧
    (∀ reason, answer.1 ≠ .error (.internal reason)) ∧
    (answer.2.map (·.goal)).Nodup ∧
    (∀ goal, lead = .declared goal → ∀ call ∈ answer.2, call.goal = goal) := by
  have hdeclared : lead.isDeclared = true ↔ ∃ goal, lead = .declared goal := by
    cases lead <;> simp [Lead.isDeclared]
  have honly : ∀ {attempts : List Goal}, (∀ goal ∈ attempts, goal ∈ r.goals lead) →
      ∀ goal, lead = .declared goal → ∀ call ∈ attempts.map (r.call source), call.goal = goal := by
    rintro attempts hsub goal rfl call hcall
    obtain ⟨other, hother, rfl⟩ := List.mem_map.1 hcall
    exact List.mem_singleton.1 (hsub other hother)
  dsimp only
  rw [map_goal_plan]
  rcases exists_isFirst_or r grammar source (r.goals lead) with
    ⟨before, first, hfirst⟩ | hnone
  · have hrun := resolve_of_isFirst key hfirst
    rw [hrun]
    refine ⟨fun goal => ⟨?_, ?_⟩, ?_, by simp, by simp, ?_, honly fun goal => hfirst.mem⟩
    · rintro ⟨found, hfound, rfl⟩
      cases hfound
      exact ⟨before, hfirst⟩
    · rintro ⟨others, hother⟩
      have hsame := congrArg Prod.fst (hrun.symm.trans (resolve_of_isFirst key hother))
      exact ⟨_, hsame, rfl⟩
    · intro found hfound
      cases hfound
      exact ⟨before, hfirst, rfl, rfl, rfl⟩
    · rw [map_goal_call]
      exact hfirst.nodup (nodup_goals hr lead)
  · obtain ⟨last, failure, hlast, hfailure, hrun⟩ := resolve_of_rejects hr key hnone
    rw [hrun]
    refine ⟨fun goal => ⟨by simp, ?_⟩, by simp, ?_, by simp, ?_, honly fun goal => id⟩
    · rintro ⟨others, ⟨after, hgoals⟩, -, hgoal⟩
      exact absurd hgoal (hnone goal (by simp [hgoals]))
    · intro e he
      cases he
      exact ⟨last, failure, _, hlast, hfailure, rfl, hdeclared, rfl⟩
    · rw [map_goal_call]
      exact nodup_goals hr lead

/-- A source that parses as a module only is found to be one, after an attempt as a script. -/
theorem resolve_plan_of_module :
    let grammar : Grammar Id := ⟨"modules", fun _ goal =>
      if goal = .module then .ok () else .error ⟨.start, "no script"⟩⟩
    GoalOrder.standard.Built ∧ ∃ found,
      ((({} : Resolver).resolve grammar.recorded "a.js" [] .ambiguous).run []).1 = .ok found ∧
        found.goal = .module :=
  ⟨.ofKnown, ((resolve_plan {} .ofKnown _ "a.js" [] .ambiguous).1 .module).2
    ⟨[.script], ⟨[], rfl⟩, by simp [Accepts], by simp [Accepts]⟩⟩

end Resolver
end ParseGoal
