import ParseGoal.Calendar.Instant

/-! The order of instants is linear. -/
namespace ParseGoal.Instant

theorem numbersUpTo_trans {xs ys zs : List Int} (h : numbersUpTo xs ys = true) (h' : numbersUpTo ys zs = true) :
    numbersUpTo xs zs = true := by
  induction xs generalizing ys zs with
  | nil => rfl
  | cons x xs ih =>
    cases ys with
    | nil => cases h
    | cons y ys =>
      cases zs with
      | nil => cases h'
      | cons z zs =>
        simp only [numbersUpTo, Bool.or_eq_true, Bool.and_eq_true, decide_eq_true_eq] at h h' ⊢
        rcases h with hlt | ⟨rfl, h⟩
        · exact .inl (by omega)
        · rcases h' with hlt | ⟨rfl, h'⟩
          · exact .inl hlt
          · exact .inr ⟨rfl, ih h h'⟩

theorem numbersUpTo_total (xs ys : List Int) : numbersUpTo xs ys = true ∨ numbersUpTo ys xs = true := by
  induction xs generalizing ys with
  | nil => exact .inl rfl
  | cons x xs ih =>
    cases ys with
    | nil => exact .inr rfl
    | cons y ys =>
      simp only [numbersUpTo, Bool.or_eq_true, Bool.and_eq_true, decide_eq_true_eq]
      rcases Int.lt_trichotomy x y with hlt | rfl | hlt
      · exact .inl (.inl hlt)
      · exact (ih ys).imp (fun h => .inr ⟨rfl, h⟩) (fun h => .inr ⟨rfl, h⟩)
      · exact .inr (.inl hlt)

theorem isUpTo_trans {i j k : Instant} (h : i.isUpTo j = true) (h' : j.isUpTo k = true) :
    i.isUpTo k = true := numbersUpTo_trans h h'

theorem isUpTo_total (i j : Instant) : i.isUpTo j = true ∨ j.isUpTo i = true :=
  numbersUpTo_total i.key j.key

end ParseGoal.Instant
