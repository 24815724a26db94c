import ParseGoal.Error
import ParseGoal.Order
import ParseGoal.Text.Blank

/-! Goals and goal orders as people write them. -/
namespace ParseGoal

/-- A written goal may have blanks around it and capital ASCII letters in it. -/
def Goal.parse (text : String) : Except Error Goal :=
  let plain := String.ofList ((Text.trim text.toList).map Char.toLower)
  match Goal.ofName? plain with
  | some goal => .ok goal
  | none => .error (.unknownGoal plain)

/-- An order of goals, from the preferred ones. -/
abbrev GoalOrder := Order Goal

namespace GoalOrder

/-- The preferred goals first; naming one twice is an error that names it. -/
def ofPreferred (preferred : List Goal) : Except Error GoalOrder :=
  (Order.ofPreferred Goal.all preferred).mapError fun goal =>
    .goalOrderInvalid s!"goal '{goal.name}' listed more than once"

/-- One goal first. -/
def primary (goal : Goal) : GoalOrder := Order.primary Goal.all goal

/-- The order of sources that say nothing. -/
def standard : GoalOrder := Order.ofKnown Goal.all

end GoalOrder
end ParseGoal
