/-!
Orders in which candidates are tried. They are built over any finite list of known candidates,
so nothing here depends on how many goals there are.
-/
namespace ParseGoal

/-- Candidates in the order in which they are tried. -/
structure Order (α : Type) where
  /-- The first item is the primary candidate. -/
  items : List α
  deriving DecidableEq

namespace Order

variable {α : Type} [DecidableEq α]

/-- The earliest element that repeats one of `seen` or one before it. -/
def firstRepeat? (seen : List α) : List α → Option α
  | [] => none
  | a :: rest => if a ∈ seen then some a else firstRepeat? (a :: seen) rest

/-- Known candidates that are not listed yet follow in their own order. -/
def addMissing (listed : List α) : List α → List α
  | [] => listed
  | a :: rest => addMissing (if a ∈ listed then listed else listed ++ [a]) rest

/-- A preferred list comes first. A list that names a candidate twice is refused with that candidate. -/
def ofPreferred (known preferred : List α) : Except α (Order α) :=
  match firstRepeat? [] preferred with
  | some a => .error a
  | none => .ok ⟨addMissing preferred known⟩

/-- The known candidates in their own order. -/
def ofKnown (known : List α) : Order α := ⟨known⟩

/-- One candidate first, and the other known ones in their own order. -/
def primary (known : List α) (a : α) : Order α := ⟨a :: known.filter (· ≠ a)⟩

/-- The same order with one candidate moved to the front. -/
def ledBy (o : Order α) (a : α) : Order α := ⟨a :: o.items.filter (· ≠ a)⟩

/-- The candidate that is tried first. -/
def first? (o : Order α) : Option α := o.items.head?

end Order
end ParseGoal
