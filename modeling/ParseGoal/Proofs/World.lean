import ParseGoal.World

/-! How programs and actions run, step by step, and which of them leave the world as it is. -/
namespace ParseGoal

namespace World

variable {α β : Type} (w : World)

@[simp] theorem run_pure (a : α) : w.run (pure a) = (a, w) := rfl

@[simp] theorem run_request (r : Request) : w.run (Program.request r) = w.perform r := rfl

@[simp] theorem run_bind (p : Program α) (f : α → Program β) :
    w.run (p >>= f) = (w.run p).2.run (f (w.run p).1) := by
  change w.run (p.bind f) = _
  induction p generalizing w with
  | done a => rfl
  | ask r next ih => exact ih _ _

/-- Runs an action to its end. -/
def act (a : Action α) : Except Error α × World := w.run a.run

@[simp] theorem act_pure (a : α) : w.act (pure a) = (.ok a, w) := rfl

theorem act_bind (a : Action α) (f : α → Action β) :
    w.act (a >>= f) =
      match (w.act a).1 with
      | .ok value => (w.act a).2.act (f value)
      | .error e => (.error e, (w.act a).2) := by
  change w.run (a.run >>= _) = _
  rw [run_bind]
  change _ = match (w.run a.run).1 with
    | .ok value => (w.run a.run).2.act (f value)
    | .error e => (.error e, (w.run a.run).2)
  cases (w.run a.run).1 <;> rfl

@[simp] theorem act_ofProgram (p : Program α) :
    w.act (Action.ofProgram p) = (.ok (w.run p).1, (w.run p).2) := by
  change w.run (p >>= fun a => (pure (.ok a) : Program (Except Error α))) = _
  rw [run_bind, run_pure]

theorem act_orFail (p : Program (Except Refusal α)) (failure : Refusal → Error) :
    w.act (Action.orFail p failure) = ((w.run p).1.mapError failure, (w.run p).2) := by
  change w.run (p >>= _) = _
  rw [run_bind]
  cases (w.run p).1 <;> rfl

/-- A bind whose first part succeeds. -/
theorem act_bind_ok {a : Action α} {value : α} {w' : World} (f : α → Action β)
    (h : w.act a = (.ok value, w')) : w.act (a >>= f) = w'.act (f value) := by
  rw [act_bind, h]

end World

/-- The content of a file that can be read, if it is text. -/
theorem Program.run_readText {w : World} {path : Path} {content : Bytes}
    (h : w.disk.read w.cwd path = .ok content) :
    w.run (readText path) =
      (match Utf8.toString? content with
        | some text => .ok text
        | none => .error .invalidText, w) := by
  have hread : w.perform (.readFile path) = (.ok content, w) := congrArg (fun answer => (answer, w)) h
  unfold readText
  rw [World.run_bind, World.run_request, hread]
  dsimp only
  cases Utf8.toString? content <;> rfl

/-- A program that leaves every world as it is. -/
def Program.IsQuiet {α : Type} (p : Program α) : Prop := ∀ w : World, (w.run p).2 = w

/-- An action that leaves every world as it is. -/
def Action.IsQuiet {α : Type} (a : Action α) : Prop := Program.IsQuiet a.run

namespace Program.IsQuiet

variable {α β : Type}

theorem pure (a : α) : IsQuiet (Pure.pure a) := fun _ => rfl

theorem bind {p : Program α} {f : α → Program β} (hp : p.IsQuiet) (hf : ∀ a, (f a).IsQuiet) :
    (p >>= f).IsQuiet := by
  intro w
  rw [World.run_bind, hf, hp]

theorem run_eq {p : Program α} (h : p.IsQuiet) (w : World) : w.run p = ((w.run p).1, w) :=
  Prod.ext rfl (h w)

theorem readFile (path : Path) : (request (.readFile path)).IsQuiet := fun _ => rfl

theorem isFile (path : Path) : (request (.isFile path)).IsQuiet := fun _ => rfl

theorem readText (path : Path) : (Program.readText path).IsQuiet := by
  unfold Program.readText
  refine bind (readFile path) fun content => ?_
  split
  · exact pure _
  · split <;> exact pure _

end Program.IsQuiet

namespace Action.IsQuiet

variable {α β : Type}

theorem pure (a : α) : IsQuiet (Pure.pure a) := fun _ => rfl

theorem ofExcept (result : Except Error α) : (Action.ofExcept result).IsQuiet := fun _ => rfl

theorem bind {a : Action α} {f : α → Action β} (ha : a.IsQuiet) (hf : ∀ value, (f value).IsQuiet) :
    (a >>= f).IsQuiet := by
  intro w
  change (w.act (a >>= f)).2 = w
  rw [World.act_bind]
  have hw : (w.act a).2 = w := ha w
  rw [hw]
  cases (w.act a).1 with
  | ok value => exact hf value w
  | error e => rfl

theorem ofProgram {p : Program α} (hp : p.IsQuiet) : (Action.ofProgram p).IsQuiet := by
  intro w
  change (w.act (Action.ofProgram p)).2 = w
  rw [World.act_ofProgram]
  exact hp w

theorem orFail {p : Program (Except Refusal α)} (hp : p.IsQuiet) (failure : Refusal → Error) :
    (Action.orFail p failure).IsQuiet := by
  intro w
  change (w.act (Action.orFail p failure)).2 = w
  rw [World.act_orFail]
  exact hp w

theorem act_eq {a : Action α} (h : a.IsQuiet) (w : World) : w.act a = ((w.act a).1, w) :=
  Prod.ext rfl (h w)

end Action.IsQuiet

/-- Whether an answer refuses to change a file or directory. -/
def Request.isRefused : (r : Request) → r.Answer → Bool
  | .writeFile _ _, .error _ => true
  | .makeDirectories _, .error _ => true
  | .rename _ _, .error _ => true
  | .removeFile _, .error _ => true
  | _, _ => false

namespace World

variable {α β : Type} (w : World)

/-- Whether every change of a file or directory that a program asks for is made. -/
def grants (w : World) : Program α → Bool
  | .done _ => true
  | .ask request next =>
    !request.isRefused (w.perform request).1 && (w.perform request).2.grants (next (w.perform request).1)

@[simp] theorem grants_pure (a : α) : w.grants (pure a : Program α) = true := rfl

@[simp] theorem grants_request (r : Request) :
    w.grants (Program.request r) = !r.isRefused (w.perform r).1 := Bool.and_true _

@[simp] theorem grants_bind (p : Program α) (f : α → Program β) :
    w.grants (p >>= f) = (w.grants p && (w.run p).2.grants (f (w.run p).1)) := by
  change w.grants (p.bind f) = _
  induction p generalizing w with
  | done a => rfl
  | ask r next ih =>
    change (!r.isRefused _ && (w.perform r).2.grants ((next (w.perform r).1).bind f)) = _
    rw [ih, ← Bool.and_assoc]
    rfl

@[simp] theorem grants_ofProgram (p : Program α) :
    w.grants (Action.ofProgram p).run = w.grants p := by
  change w.grants (p >>= fun a => (pure (.ok a) : Program (Except Error α))) = _
  rw [grants_bind, grants_pure, Bool.and_true]

@[simp] theorem grants_orFail (p : Program (Except Refusal α)) (failure : Refusal → Error) :
    w.grants (Action.orFail p failure).run = w.grants p := by
  change w.grants (p >>= _) = _
  rw [grants_bind]
  cases (w.run p).1 <;> exact Bool.and_true _

theorem grants_act_bind (a : Action α) (f : α → Action β) :
    w.grants (a >>= f).run = (w.grants a.run &&
      match (w.act a).1 with
      | .ok value => (w.act a).2.grants (f value).run
      | .error _ => true) := by
  change w.grants (a.run >>= _) = _
  rw [grants_bind]
  change _ = (w.grants a.run && match (w.run a.run).1 with
    | .ok value => (w.run a.run).2.grants (f value).run
    | .error _ => true)
  cases (w.run a.run).1 <;> rfl

variable {w} {w' : World}

theorem act_ask {r : Request} {answer : r.Answer} (f : r.Answer → Action β)
    (h : w.perform r = (answer, w')) :
    w.act (Action.ofProgram (Program.request r) >>= f) = w'.act (f answer) := by
  rw [act_bind, act_ofProgram, run_request, h]

theorem grants_ask {r : Request} {answer : r.Answer} (f : r.Answer → Action β)
    (h : w.perform r = (answer, w')) :
    w.grants (Action.ofProgram (Program.request r) >>= f).run =
      (!r.isRefused answer && w'.grants (f answer).run) := by
  rw [grants_act_bind, act_ofProgram, grants_ofProgram, grants_request, run_request, h]

theorem grants_bind_ok {a : Action α} {value : α} (f : α → Action β) (h : w.act a = (.ok value, w')) :
    w.grants (a >>= f).run = (w.grants a.run && w'.grants (f value).run) := by
  rw [grants_act_bind, h]

variable (w)

/-- No program changes the working directory. -/
theorem cwd_run (p : Program α) : (w.run p).2.cwd = w.cwd := by
  induction p generalizing w with
  | done a => rfl
  | ask r next ih =>
    refine (ih _ _).trans ?_
    cases r <;> rfl

theorem cwd_act (a : Action α) : (w.act a).2.cwd = w.cwd := cwd_run w _

/-- No program changes how attempts end. -/
theorem fate_run (p : Program α) : (w.run p).2.fate = w.fate := by
  induction p generalizing w with
  | done a => rfl
  | ask r next ih =>
    refine (ih _ _).trans ?_
    cases r <;> rfl

theorem fate_act (a : Action α) : (w.act a).2.fate = w.fate := fate_run w _

end World
end ParseGoal
