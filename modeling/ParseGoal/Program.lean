import ParseGoal.Calendar.Instant
import ParseGoal.Disk
import ParseGoal.Error
import ParseGoal.Grammar.Deadline

/-!
Programs that work on files, as data: a program is done, or it asks something of its surroundings
and goes on with the answer. What the surroundings are is left open.
-/
namespace ParseGoal

/-- What a program can ask for. -/
inductive Request where
  | readFile (path : Path)
  | writeFile (path : Path) (content : Bytes)
  /-- A directory and those around it are made as far as they are missing. -/
  | makeDirectories (path : Path)
  /-- A file takes the place of another one. -/
  | rename (source target : Path)
  | removeFile (path : Path)
  | listDirectory (path : Path)
  /-- Whether something that is there is a regular file. -/
  | isFile (path : Path)
  | canonicalize (path : Path)
  | workingDirectory
  | now
  /-- A word that no other answer repeats. -/
  | freshWord
  /-- A line of the input with its end; there is no answer if it is not text. -/
  | readLine
  | print (text : String)
  | report (text : String)
  /-- How an attempt with so many milliseconds ends. -/
  | fate (limit : Nat) (source : Bytes) (goal : Goal)

/-- The answers to a request. -/
abbrev Request.Answer : Request → Type
  | .readFile _ => Except Refusal Bytes
  | .writeFile _ _ => Except Refusal Unit
  | .makeDirectories _ => Except Refusal Unit
  | .rename _ _ => Except Refusal Unit
  | .removeFile _ => Except Refusal Unit
  | .listDirectory _ => Except Refusal (List String)
  | .isFile _ => Except Refusal Bool
  | .canonicalize _ => Except Refusal Path
  | .workingDirectory => Path
  | .now => Instant
  | .freshWord => String
  | .readLine => Option String
  | .print _ => Unit
  | .report _ => Unit
  | .fate _ _ _ => Fate

/-- A program that ends with an `α`. -/
inductive Program (α : Type) where
  | done (value : α)
  | ask (request : Request) (next : request.Answer → Program α)

namespace Program

variable {α β : Type}

/-- One program after another. -/
def bind : Program α → (α → Program β) → Program β
  | .done value, next => next value
  | .ask request more, next => .ask request fun answer => bind (more answer) next

instance : Monad Program where
  pure := .done
  bind := bind

/-- A request by itself. -/
def request (r : Request) : Program r.Answer := .ask r .done

theorem bind_done (p : Program α) : p.bind .done = p := by
  induction p with
  | done => rfl
  | ask r more ih => simp [bind, ih]

theorem bind_assoc {γ : Type} (p : Program α) (f : α → Program β) (g : β → Program γ) :
    (p.bind f).bind g = p.bind fun a => (f a).bind g := by
  induction p with
  | done => rfl
  | ask r more ih => simp [bind, ih]

/-- Prints a line. -/
def printLine (text : String) : Program Unit := request (.print (text ++ "\n"))

/-- Reports a line to the one who runs the program. -/
def reportLine (text : String) : Program Unit := request (.report (text ++ "\n"))

/-- The content of a file, which must be text. -/
def readText (path : Path) : Program (Except Refusal String) := do
  match ← request (.readFile path) with
  | .error refusal => return .error refusal
  | .ok bytes =>
    match Utf8.toString? bytes with
    | some text => return .ok text
    | none => return .error .invalidText

/-- Whether a path leads to anything. -/
def pathExists (path : Path) : Program Bool := do
  match ← request (.isFile path) with
  | .ok _ => return true
  | .error _ => return false

end Program

/-- A program that may fail. -/
abbrev Action := ExceptT Error Program

namespace Action

/-- A program as an action that does not fail. -/
def ofProgram {α : Type} (p : Program α) : Action α := ExceptT.lift p

/-- A program that may be refused; `failure` says what a refusal means. -/
def orFail {α : Type} (p : Program (Except Refusal α)) (failure : Refusal → Error) : Action α :=
  ExceptT.mk do
    match ← p with
    | .ok value => return .ok value
    | .error refusal => return .error (failure refusal)

/-- A request that may be refused by the file system while something is being done. -/
def doing {α : Type} (what : String) (p : Program (Except Refusal α)) : Action α :=
  orFail p fun refusal => .io what refusal.reason

/-- A result that does not depend on the surroundings. -/
def ofExcept {α : Type} (result : Except Error α) : Action α := ExceptT.mk (pure result)

end Action
end ParseGoal
