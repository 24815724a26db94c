import ParseGoal.Toml

/-!
Tables while a document is read. What may be added to a table depends on how it came about, so
that no table is defined twice.
-/
namespace ParseGoal.Toml

/-- How a table came about. -/
inductive Origin where
  /-- It has a header of its own. -/
  | header
  /-- A longer header names it on the way. -/
  | implied
  /-- A dotted key names it on the way. -/
  | dotted
  deriving DecidableEq

/-- What a name stands for while a document is read. -/
inductive Node where
  /-- A value that is whole. -/
  | value (v : Toml)
  | table (origin : Origin) (fields : List (String × Node))
  /-- The tables of an array that headers make, the last first. -/
  | tables (elements : List (List (String × Node)))

/-- The fields of a table while a document is read. -/
abbrev Fields := List (String × Node)

namespace Fields

/-- The fields with another node under a name. -/
def set (fields : Fields) (name : String) (node : Node) : Fields :=
  if fields.any (·.1 = name) then
    fields.map fun field => if field.1 = name then (name, node) else field
  else fields ++ [(name, node)]

/-- Adds a value under a dotted key. Tables with headers of their own are not entered. -/
def insert (name : String) (value : Toml) : (path : List String) → Fields → Option Fields
  | [], fields =>
    if fields.any (·.1 = name) then none else some (fields.set name (.value value))
  | step :: path, fields =>
    match fields.lookup step with
    | none => do
      let inner ← insert name value path []
      return fields.set step (.table .dotted inner)
    | some (.table origin inner) =>
      if origin = .header ∨ (path = [] ∧ origin = .implied) then none
      else do
        let inner ← insert name value path inner
        return fields.set step (.table origin inner)
    | some (.tables (last :: before)) =>
      if path = [] then none
      else do
        let last ← insert name value path last
        return fields.set step (.tables (last :: before))
    | some _ => none

/-- Changes the table that a header's path leads to; tables on the way that are missing are implied. -/
def descend (change : Fields → Option Fields) : (path : List String) → Fields → Option Fields
  | [], fields => change fields
  | step :: path, fields =>
    match fields.lookup step with
    | none => do return fields.set step (.table .implied (← descend change path []))
    | some (.table origin inner) => do
      return fields.set step (.table origin (← descend change path inner))
    | some (.tables (last :: before)) => do
      return fields.set step (.tables ((← descend change path last) :: before))
    | some _ => none

end Fields

mutual

/-- The value of a node. -/
def Node.toToml : Node → Toml
  | .value v => v
  | .table _ fields => .table (fieldsToToml fields)
  | .tables elements => .array (tablesToToml elements).reverse

/-- The values of some fields. -/
def fieldsToToml : List (String × Node) → List (String × Toml)
  | [] => []
  | (name, node) :: rest => (name, node.toToml) :: fieldsToToml rest

/-- The values of some tables. -/
def tablesToToml : List (List (String × Node)) → List Toml
  | [] => []
  | fields :: rest => .table (fieldsToToml fields) :: tablesToToml rest

end

/-- A value under a dotted key. -/
structure Entry where
  /-- The parts of the key before the last one. -/
  path : List String
  name : String
  value : Toml

/-- The fields with some entries added. -/
def Fields.insertAll (fields : Fields) (entries : List Entry) : Option Fields :=
  entries.foldlM (fun fields e => fields.insert e.name e.value e.path) fields

/-- A header with the entries below it. -/
structure Section where
  /-- The header adds an element to an array. -/
  isElement : Bool
  /-- The parts of the header's key before the last one. -/
  path : List String
  name : String
  entries : List Entry

/-- Adds a section to the table that its header's path leads to. -/
def Section.addTo (s : Section) (parent : Fields) : Option Fields :=
  if s.isElement then do
    let before ← match parent.lookup s.name with
      | none => some []
      | some (.tables elements) => some elements
      | some _ => none
    return parent.set s.name (.tables ((← Fields.insertAll [] s.entries) :: before))
  else do
    let inner ← match parent.lookup s.name with
      | none => some []
      | some (.table .implied inner) => some inner
      | some _ => none
    return parent.set s.name (.table .header (← Fields.insertAll inner s.entries))

/-- The table of a document: the entries before all headers, and the sections. -/
def tableOf? (entries : List Entry) (sections : List Section) : Option Toml := do
  let root ← Fields.insertAll [] entries
  let root ← sections.foldlM (fun root s => root.descend s.addTo s.path) root
  return .table (fieldsToToml root)

end ParseGoal.Toml
