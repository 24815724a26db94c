import ParseGoal.Proofs.Disk.Trail
import ParseGoal.Proofs.Program.Turns

/-!
Programs that only read, and all that they look at on the disk. Others that leave this alone do not change what
such a program finds.
-/
namespace ParseGoal

namespace Request

/-- Whether the answer is read off the disk, or is how an attempt ends; nothing is changed then. -/
def isReading : Request → Bool
  | .readFile _ => true
  | .isFile _ => true
  | .canonicalize _ => true
  | .fate _ _ _ => true
  | _ => false

/-- Whether it is asked how an attempt ends. -/
def isFate : Request → Bool
  | .fate _ _ _ => true
  | _ => false

theorem isReading_of_isFate {r : Request} (h : r.isFate = true) : r.isReading = true := by
  cases r with
  | fate => rfl
  | _ => cases h

end Request

/-- A program that makes only requests of some kind. -/
def Program.AsksOnly {α : Type} (kind : Request → Bool) : Program α → Prop
  | .done _ => True
  | .ask r next => kind r = true ∧ ∀ answer, (next answer).AsksOnly kind

namespace Program.AsksOnly

variable {α β : Type} {kind : Request → Bool}

theorem pure (a : α) : AsksOnly kind (Pure.pure a : Program α) := trivial

theorem request {r : Request} (h : kind r = true) : (Program.request r).AsksOnly kind := ⟨h, fun _ => trivial⟩

theorem bind {p : Program α} {f : α → Program β} (hp : p.AsksOnly kind) (hf : ∀ a, (f a).AsksOnly kind) :
    (p >>= f).AsksOnly kind := by
  change (p.bind f).AsksOnly kind
  induction p with
  | done a => exact hf a
  | ask r next ih => exact ⟨hp.1, fun answer => ih answer (hp.2 answer)⟩

theorem act_bind {a : Action α} {f : α → Action β} (ha : AsksOnly kind a.run)
    (hf : ∀ value, AsksOnly kind (f value).run) : AsksOnly kind (a >>= f).run := by
  refine bind (p := a.run) ha fun answer => ?_
  cases answer with
  | ok value => exact hf value
  | error e => exact pure (Except.error e)

theorem ofProgram {p : Program α} (hp : p.AsksOnly kind) : AsksOnly kind (Action.ofProgram p).run :=
  bind hp fun _ => trivial

theorem orFail {p : Program (Except Refusal α)} (hp : p.AsksOnly kind) (failure : Refusal → Error) :
    AsksOnly kind (Action.orFail p failure).run :=
  bind hp fun answer => by cases answer <;> trivial

theorem mono {p : Program α} {kind' : Request → Bool} (h : ∀ r, kind r = true → kind' r = true)
    (hp : p.AsksOnly kind) : p.AsksOnly kind' := by
  induction p with
  | done a => trivial
  | ask r next ih => exact ⟨h r hp.1, fun answer => ih answer (hp.2 answer)⟩

end Program.AsksOnly

namespace World

variable {α : Type}

/-- The locations that are looked up to answer a request to read. -/
def sight (w : World) : Request → List Location
  | .readFile path => w.disk.trail w.cwd path
  | .isFile path => w.disk.trail w.cwd path
  | .canonicalize path => w.disk.trail w.cwd path
  | _ => []

/-- The locations that are looked up when a program that reads runs. -/
def looksAt (w : World) : Program α → List Location
  | .done _ => []
  | .ask r next => w.sight r ++ (w.perform r).2.looksAt (next (w.perform r).1)

variable {w v : World}

theorem perform_of_reading {r : Request} (hr : r.isReading = true) (hcwd : v.cwd = w.cwd)
    (hfate : v.fate = w.fate) (h : ∀ place ∈ w.sight r, v.disk.entry? place = w.disk.entry? place) :
    v.perform r = ((w.perform r).1, v) := by
  cases r with
  | readFile path =>
    refine Prod.ext (?_ : v.disk.read v.cwd path = _) rfl
    rw [hcwd]
    exact Disk.read_congr h
  | isFile path =>
    refine Prod.ext (?_ : v.disk.isFile v.cwd path = _) rfl
    rw [hcwd]
    exact Disk.isFile_congr h
  | canonicalize path =>
    refine Prod.ext (?_ : v.disk.canonical v.cwd path = _) rfl
    rw [hcwd]
    exact Disk.canonical_congr h
  | fate limit source goal => exact Prod.ext (congrFun (congrFun (congrFun hfate limit) source) goal) rfl
  | _ => cases hr

theorem perform_reading {r : Request} (hr : r.isReading = true) : (w.perform r).2 = w :=
  congrArg Prod.snd (perform_of_reading (v := w) hr rfl rfl fun _ _ => rfl)

theorem run_reading {r : Request} (hr : r.isReading = true) (next : r.Answer → Program α) :
    w.run (.ask r next) = w.run (next (w.perform r).1) := by
  change (w.perform r).2.run (next (w.perform r).1) = _
  rw [perform_reading hr]

end World

namespace Program

variable {α : Type} {p : Program α} {w v : World}

theorem AsksOnly.isQuiet (h : p.AsksOnly Request.isReading) : p.IsQuiet := by
  induction p with
  | done a => exact fun _ => rfl
  | ask r next ih =>
    intro w
    rw [World.run_reading h.1, ih _ (h.2 _)]

/-- What depends only on how attempts end is the same wherever they end alike. -/
theorem AsksOnly.run_eq (h : p.AsksOnly Request.isFate) (hcwd : v.cwd = w.cwd) (hfate : v.fate = w.fate) :
    (v.run p).1 = (w.run p).1 := by
  induction p with
  | done a => rfl
  | ask r next ih =>
    have hr := Request.isReading_of_isFate h.1
    have hsight : w.sight r = [] := by
      have hr := h.1
      cases r with
      | fate => rfl
      | _ => cases hr
    have hperform : v.perform r = ((w.perform r).1, v) :=
      World.perform_of_reading hr hcwd hfate (by simp [hsight])
    rw [World.run_reading hr, World.run_reading hr, hperform, ih _ (h.2 _)]

/-- A program that reads keeps to terms under which nothing changes that it looks at, and finds the same. -/
theorem AsksOnly.abides {terms : Terms} (h : p.AsksOnly Request.isReading)
    (hrely : ∀ v, terms.rely w v → v.cwd = w.cwd ∧ v.fate = w.fate ∧
      ∀ place ∈ w.looksAt p, v.disk.entry? place = w.disk.entry? place)
    (hguarantee : ∀ v, terms.guarantee v v) :
    Abides terms (fun value v => value = (w.run p).1 ∧ terms.rely w v) p w := by
  induction p with
  | done value => exact fun v hv => ⟨rfl, hv⟩
  | ask r next ih =>
    have hw : (w.perform r).2 = w := World.perform_reading h.1
    rw [World.looksAt, hw] at hrely
    intro v hv _
    obtain ⟨hcwd, hfate, hplaces⟩ := hrely v hv
    rw [World.perform_of_reading h.1 hcwd hfate fun place hplace =>
      hplaces place (List.mem_append_left _ hplace)]
    have hrest := ih (w.perform r).1 (h.2 _) fun v hv =>
      ⟨(hrely v hv).1, (hrely v hv).2.1, fun place hplace =>
        (hrely v hv).2.2 place (List.mem_append_right _ hplace)⟩
    rw [World.run_reading h.1]
    exact ⟨hguarantee v, hrest.mono hv⟩

end Program
end ParseGoal
