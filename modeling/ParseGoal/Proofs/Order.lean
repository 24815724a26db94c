import Mathlib.Data.List.Nodup
import Mathlib.Data.List.Perm.Basic
import ParseGoal.Goal.Named

/-!
Orders that are built from the known candidates list each of them exactly once. A preferred list can be made
an order unless it repeats a candidate, and another candidate in front changes nothing among the others.
-/
namespace ParseGoal

namespace Order

variable {α : Type} [DecidableEq α]

/-- The orders that can be built over some known candidates. -/
inductive Built (known : List α) : Order α → Prop where
  | ofKnown : Built known (ofKnown known)
  | primary (a : α) : Built known (primary known a)
  | ofPreferred {preferred : List α} {o : Order α} (h : ofPreferred known preferred = .ok o) :
    Built known o
  | ledBy {o : Order α} (h : Built known o) (a : α) : Built known (o.ledBy a)

/-- A list without repetitions can be made an order. -/
theorem firstRepeat?_eq_none_iff {seen preferred : List α} :
    firstRepeat? seen preferred = none ↔ preferred.Nodup ∧ ∀ a ∈ preferred, a ∉ seen := by
  induction preferred generalizing seen with
  | nil => simp [firstRepeat?]
  | cons a rest ih =>
    rw [firstRepeat?, List.nodup_cons]
    split_ifs with ha
    · refine ⟨nofun, fun ⟨_, hseen⟩ => absurd ha (hseen a List.mem_cons_self)⟩
    rw [ih]
    constructor
    · rintro ⟨hnodup, hseen⟩
      have harest : a ∉ rest := fun hmem => hseen a hmem List.mem_cons_self
      refine ⟨⟨harest, hnodup⟩, List.forall_mem_cons.2 ⟨ha, fun b hb hmem => ?_⟩⟩
      exact hseen b hb (List.mem_cons_of_mem _ hmem)
    · rintro ⟨⟨harest, hnodup⟩, hseen⟩
      refine ⟨hnodup, fun b hb hmem => ?_⟩
      rcases List.mem_cons.1 hmem with rfl | hmem
      · exact harest hb
      · exact hseen b (List.mem_cons_of_mem _ hb) hmem

theorem firstRepeat?_eq_some_iff {seen preferred : List α} {a : α} :
    firstRepeat? seen preferred = some a ↔ ∃ before after, preferred = before ++ a :: after ∧
      before.Nodup ∧ (∀ b ∈ before, b ∉ seen) ∧ (a ∈ before ∨ a ∈ seen) := by
  induction preferred generalizing seen with
  | nil => simp [firstRepeat?]
  | cons b rest ih =>
    rw [firstRepeat?]
    split_ifs with hb
    · rw [Option.some_inj]
      constructor
      · rintro rfl
        exact ⟨[], rest, rfl, .nil, nofun, .inr hb⟩
      · rintro ⟨before, after, heq, -, hseen, -⟩
        cases before with
        | nil => exact (List.cons.inj heq).1
        | cons c before =>
          obtain ⟨rfl, -⟩ := List.cons.inj heq
          exact absurd hb (hseen b List.mem_cons_self)
    rw [ih]
    constructor
    · rintro ⟨before, after, rfl, hnodup, hseen, ha⟩
      have hfresh : b ∉ before := fun hmem => hseen b hmem List.mem_cons_self
      refine ⟨b :: before, after, rfl, List.nodup_cons.2 ⟨hfresh, hnodup⟩, ?_, ?_⟩
      · exact List.forall_mem_cons.2 ⟨hb, fun c hc hmem => hseen c hc (List.mem_cons_of_mem _ hmem)⟩
      · simp only [List.mem_cons] at ha ⊢
        tauto
    · rintro ⟨before, after, heq, hnodup, hseen, ha⟩
      cases before with
      | nil =>
        obtain ⟨rfl, -⟩ := List.cons.inj heq
        exact absurd (ha.resolve_left List.not_mem_nil) hb
      | cons c before =>
        obtain ⟨rfl, rfl⟩ := List.cons.inj heq
        obtain ⟨hfresh, hnodup⟩ := List.nodup_cons.1 hnodup
        refine ⟨before, after, rfl, hnodup, fun c hc hmem => ?_, ?_⟩
        · rcases List.mem_cons.1 hmem with rfl | hmem
          · exact hfresh hc
          · exact hseen c (List.mem_cons_of_mem _ hc) hmem
        · simp only [List.mem_cons] at ha ⊢
          tauto

theorem nodup_addMissing {listed known : List α} (h : listed.Nodup) :
    (addMissing listed known).Nodup := by
  induction known generalizing listed with
  | nil => exact h
  | cons a rest ih =>
    simp only [addMissing]
    split_ifs with ha
    · exact ih h
    · refine ih (List.nodup_append.2 ⟨h, by simp, ?_⟩)
      rintro b hb c hc rfl
      simp only [List.mem_singleton] at hc
      exact ha (hc ▸ hb)

theorem mem_addMissing {listed known : List α} {a : α} (h : a ∈ listed ∨ a ∈ known) :
    a ∈ addMissing listed known := by
  induction known generalizing listed with
  | nil => simpa [addMissing] using h
  | cons b rest ih =>
    simp only [addMissing]
    refine ih ?_
    rcases h with h | h
    · exact .inl (by split_ifs <;> simp [h])
    rcases List.mem_cons.1 h with rfl | h
    · by_cases ha : a ∈ listed <;> simp [ha]
    · exact .inr h

/-- The candidates that are added stand behind the listed ones, in the order in which they are known. -/
theorem exists_addMissing (listed known : List α) :
    ∃ added, addMissing listed known = listed ++ added ∧ added.Sublist known := by
  induction known generalizing listed with
  | nil => exact ⟨[], (List.append_nil listed).symm, .slnil⟩
  | cons a rest ih =>
    rw [addMissing]
    split_ifs with ha
    · obtain ⟨added, heq, hsublist⟩ := ih listed
      exact ⟨added, heq, hsublist.cons a⟩
    · obtain ⟨added, heq, hsublist⟩ := ih (listed ++ [a])
      exact ⟨a :: added, by rw [heq, List.append_assoc, List.singleton_append], hsublist.cons_cons a⟩

/-- A candidate stands in a list behind itself, and before it the list repeats nothing. -/
def IsFirstRepeat (a : α) (preferred : List α) : Prop :=
  ∃ before after, preferred = before ++ a :: after ∧ before.Nodup ∧ a ∈ before

variable {known preferred : List α} {o : Order α}

theorem ofPreferred_eq_ok_iff : ofPreferred known preferred = .ok o ↔
    preferred.Nodup ∧ o = ⟨addMissing preferred known⟩ := by
  have hnone : firstRepeat? [] preferred = none ↔ _ := firstRepeat?_eq_none_iff
  unfold ofPreferred
  cases hrepeat : firstRepeat? [] preferred with
  | none =>
    have hnodup : preferred.Nodup := (hnone.1 hrepeat).1
    simp [hnodup, eq_comm]
  | some a =>
    have hnodup : ¬ preferred.Nodup := fun h => by simp [hnone.2 ⟨h, by simp⟩] at hrepeat
    simp [hnodup]

theorem ofPreferred_eq_error_iff {a : α} :
    ofPreferred known preferred = .error a ↔ IsFirstRepeat a preferred := by
  have hsome : firstRepeat? [] preferred = some a ↔ _ := firstRepeat?_eq_some_iff
  simp only [List.not_mem_nil, not_false_eq_true, implies_true, true_and, or_false] at hsome
  unfold IsFirstRepeat
  rw [← hsome, ofPreferred]
  cases firstRepeat? [] preferred <;> simp

theorem Built.nodup (hknown : known.Nodup) (h : Built known o) : o.items.Nodup := by
  induction h with
  | ofKnown => exact hknown
  | primary a => simp [Order.primary, hknown.filter]
  | ofPreferred h =>
    obtain ⟨hpreferred, rfl⟩ := ofPreferred_eq_ok_iff.1 h
    exact nodup_addMissing hpreferred
  | ledBy h a ih => simp [Order.ledBy, ih.filter]

theorem Built.mem (hknown : ∀ a, a ∈ known) (h : Built known o) (a : α) : a ∈ o.items := by
  induction h with
  | ofKnown => exact hknown a
  | primary b => by_cases hb : a = b <;> simp [Order.primary, hb, hknown a]
  | ofPreferred h =>
    obtain ⟨-, rfl⟩ := ofPreferred_eq_ok_iff.1 h
    exact mem_addMissing (.inr (hknown a))
  | ledBy h b ih => by_cases hb : a = b <;> simp [Order.ledBy, hb, ih]

theorem Built.perm (hnodup : known.Nodup) (hall : ∀ a, a ∈ known) (h : Built known o) :
    o.items.Perm known := by
  apply (List.perm_ext_iff_of_nodup (h.nodup hnodup) hnodup).2
  intro a
  exact iff_of_true (h.mem hall a) (hall a)

/-- A candidate that is moved to the front leaves the others as they stand. -/
theorem erase_ledBy (h : o.items.Nodup) (a : α) : (o.ledBy a).items.erase a = o.items.erase a := by
  rw [ledBy, List.erase_cons_head, h.erase_eq_filter]
  apply List.filter_congr
  intro b _
  exact Bool.eq_iff_iff.2 (by simp)

/-- An order that goes on from the preferred candidates with the other known ones, each in its turn. -/
structure Completes (known preferred : List α) (o : Order α) : Prop where
  goesOn : ∃ added, o.items = preferred ++ added ∧ added.Sublist known
  nodup : o.items.Nodup
  all : ∀ a ∈ known, a ∈ o.items

theorem completes_of_ofPreferred (h : ofPreferred known preferred = .ok o) : o.Completes known preferred := by
  obtain ⟨hpreferred, rfl⟩ := ofPreferred_eq_ok_iff.1 h
  exact {
    goesOn := exists_addMissing preferred known
    nodup := nodup_addMissing hpreferred
    all := fun a ha => mem_addMissing (.inr ha) }

end Order

namespace GoalOrder

/-- An order of goals that can be built. Nothing else makes one. -/
abbrev Built (o : GoalOrder) : Prop := Order.Built Goal.all o

theorem Built.nodup {o : GoalOrder} (h : o.Built) : o.items.Nodup :=
  Order.Built.nodup (by decide) h

theorem Built.mem {o : GoalOrder} (h : o.Built) (goal : Goal) : goal ∈ o.items :=
  Order.Built.mem Goal.mem_all h goal

variable {preferred : List Goal}

theorem ofPreferred_eq_ok_iff {o : GoalOrder} :
    ofPreferred preferred = .ok o ↔ Order.ofPreferred Goal.all preferred = .ok o := by
  unfold ofPreferred
  cases Order.ofPreferred Goal.all preferred <;> simp [Except.mapError]

theorem ofPreferred_eq_error_iff {e : Error} : ofPreferred preferred = .error e ↔
    ∃ goal, Order.IsFirstRepeat goal preferred ∧
      e = .goalOrderInvalid s!"goal '{goal.name}' listed more than once" := by
  have hrepeat (goal : Goal) : Order.ofPreferred Goal.all preferred = .error goal ↔
      Order.IsFirstRepeat goal preferred := Order.ofPreferred_eq_error_iff
  simp only [← hrepeat, ofPreferred]
  cases Order.ofPreferred Goal.all preferred <;> simp [Except.mapError, eq_comm]

end GoalOrder

namespace Order

/--
Over any known candidates, a preferred list becomes an order exactly if it repeats nothing; the order goes on
from it with the other candidates in the order in which they are known. Otherwise the error names the first that
is repeated. However an order has come about, it lists each candidate once, and another one in front changes
nothing among the others.
-/
theorem orders_of_known {α : Type} [DecidableEq α] {known : List α} (hnodup : known.Nodup)
    (hall : ∀ a, a ∈ known) :
    (∀ preferred, (∃ o, ofPreferred known preferred = .ok o) ↔ preferred.Nodup) ∧
    (∀ preferred o, ofPreferred known preferred = .ok o → o.Completes known preferred) ∧
    (∀ preferred a, ofPreferred known preferred = .error a ↔ IsFirstRepeat a preferred) ∧
    (∀ o, Built known o → o.items.Nodup ∧ o.items.Perm known ∧
      ∀ a, (o.ledBy a).first? = some a ∧ (o.ledBy a).items.erase a = o.items.erase a) ∧
    ∀ preferred : List Goal,
      (∀ o, GoalOrder.ofPreferred preferred = .ok o ↔ ofPreferred Goal.all preferred = .ok o) ∧
      ∀ e, GoalOrder.ofPreferred preferred = .error e ↔ ∃ goal, IsFirstRepeat goal preferred ∧
        e = .goalOrderInvalid s!"goal '{goal.name}' listed more than once" := by
  refine ⟨fun preferred => ?_, fun _ _ => completes_of_ofPreferred, fun _ _ => ofPreferred_eq_error_iff,
    fun o h => ?_, fun preferred => ?_⟩
  · constructor
    · rintro ⟨o, h⟩
      exact (ofPreferred_eq_ok_iff.1 h).1
    · intro h
      exact ⟨_, ofPreferred_eq_ok_iff.2 ⟨h, rfl⟩⟩
  · have hitems : o.items.Nodup := h.nodup hnodup
    exact ⟨hitems, h.perm hnodup hall, fun a => ⟨rfl, erase_ledBy hitems a⟩⟩
  · exact ⟨fun _ => GoalOrder.ofPreferred_eq_ok_iff, fun _ => GoalOrder.ofPreferred_eq_error_iff⟩

/-- Of three candidates the last is preferred, and later the second is moved to the front. -/
theorem orders_of_known_three : ∃ o : Order (Fin 3), ofPreferred [0, 1, 2] [2] = .ok o ∧
    o.items = [2, 0, 1] ∧ (o.ledBy 1).items.Perm [0, 1, 2] ∧ (o.ledBy 1).items.erase 1 = [2, 0] ∧
    ofPreferred [0, 1, 2] [2, 0, 2, 0] = .error (2 : Fin 3) := by
  have hnodup : [0, 1, (2 : Fin 3)].Nodup := by decide
  have hall : ∀ a, a ∈ [0, 1, (2 : Fin 3)] := by decide
  obtain ⟨hok, -, herror, hbuilt, -⟩ := orders_of_known hnodup hall
  obtain ⟨o, ho⟩ := (hok [2]).2 (by decide)
  have hitems : o = ⟨[2, 0, 1]⟩ := Except.ok.inj (ho.symm.trans (by decide))
  obtain ⟨-, -, hfront⟩ := hbuilt o (.ofPreferred ho)
  obtain ⟨-, hperm, -⟩ := hbuilt (o.ledBy 1) (.ledBy (.ofPreferred ho) 1)
  refine ⟨o, ho, congrArg items hitems, hperm, ?_, (herror _ _).2 ⟨[2, 0], [0], rfl, by decide, by decide⟩⟩
  rw [(hfront 1).2, hitems]
  decide

end Order
end ParseGoal
