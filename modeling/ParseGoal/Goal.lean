/-! The two goals of ECMAScript source text. -/
namespace ParseGoal

/-- A goal names the grammar that a source text is parsed under. -/
inductive Goal where
  /-- Script code may be sloppy and holds no import or export declarations. -/
  | script
  /-- Module code is strict and may hold import and export declarations. -/
  | module
  deriving DecidableEq

namespace Goal

/-- Undeclared sources try the goals in this order unless told otherwise. -/
def all : List Goal := [.script, .module]

/-- The lower-case name is the one written everywhere. -/
def name : Goal → String
  | .script => "script"
  | .module => "module"

/-- Only the exact lower-case names are read back. -/
def ofName? (text : String) : Option Goal :=
  if text = "script" then some .script
  else if text = "module" then some .module
  else none

@[simp] theorem ofName?_name (g : Goal) : ofName? g.name = some g := by cases g <;> rfl

theorem mem_all (g : Goal) : g ∈ all := by cases g <;> simp [all]

end Goal
end ParseGoal
