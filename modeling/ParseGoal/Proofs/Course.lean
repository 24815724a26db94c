import ParseGoal.Proofs.Disk.Directories
import ParseGoal.Proofs.World

/-!
Programs in a world that fails them: any change of the disk may be refused, half done or not, and the
program may be stopped at any point. The run in which nothing fails is one of these courses.
-/
namespace ParseGoal

/-- Whether an answer reports a failure. That there is nothing to read, to list or to remove is none. -/
def Request.isFailure : (r : Request) → r.Answer → Bool
  | .writeFile _ _, .error _ => true
  | .makeDirectories _, .error _ => true
  | .rename _ _, .error _ => true
  | .readFile _, .error refusal => refusal ≠ .missing
  | .removeFile _, .error refusal => refusal ≠ .missing
  | .listDirectory _, .error refusal => refusal ≠ .missing
  | _, _ => false

/-- What refuses a request that changes the disk, but for a removal. -/
def Request.refuse? : (r : Request) → Option (Refusal → r.Answer)
  | .writeFile _ _ => some .error
  | .makeDirectories _ => some .error
  | .rename _ _ => some .error
  | _ => none

/-- The disks that a request can leave if it is not carried out to its end. -/
inductive Disk.Torn (disk : Disk) (cwd : Location) : Request → Disk → Prop
  | before (r : Request) : Torn disk cwd r disk
  /-- Some of the directories are made. -/
  | making {path : Path} {after : Disk} (h : after ∈ disk.stages cwd (Path.ancestors path)) :
      Torn disk cwd (.makeDirectories path) after
  /-- The file holds something else than it should. -/
  | writing (path : Path) (content part : Bytes) :
      Torn disk cwd (.writeFile path content) (disk.write cwd path part).2

/--
The courses that a program can take from a world: whether something failed, the result unless the program
was stopped, and the world it leaves.
-/
inductive Course {α : Type} : World → Program α → Bool → Option α → World → Prop
  | done (w : World) (value : α) : Course w (.done value) false (some value) w
  | stopped {w : World} {r : Request} {disk : Disk} (next : r.Answer → Program α)
      (h : w.disk.Torn w.cwd r disk) : Course w (.ask r next) false none { w with disk := disk }
  | answered {w w' : World} {r : Request} {next : r.Answer → Program α} {failed : Bool} {result : Option α}
      (h : Course (w.perform r).2 (next (w.perform r).1) failed result w') :
      Course w (.ask r next) (r.isFailure (w.perform r).1 || failed) result w'
  | refused {w w' : World} {r : Request} {next : r.Answer → Program α} {failed : Bool} {result : Option α}
      {refuse : Refusal → r.Answer} {disk : Disk} (hrefuse : r.refuse? = some refuse) (refusal : Refusal)
      (hdisk : w.disk.Torn w.cwd r disk)
      (h : Course { w with disk := disk } (next (refuse refusal)) failed result w') :
      Course w (.ask r next) true result w'

namespace World

variable {α β : Type}

/-- Whether no answer to a program reports a failure. -/
def serves (w : World) : Program α → Bool
  | .done _ => true
  | .ask request next =>
    !request.isFailure (w.perform request).1 && (w.perform request).2.serves (next (w.perform request).1)

/-- What a program does by itself is one of its courses. -/
theorem course_run (w : World) (p : Program α) :
    Course w p (!w.serves p) (some (w.run p).1) (w.run p).2 := by
  induction p generalizing w with
  | done value => exact .done w value
  | ask r next ih =>
    rw [serves, Bool.not_and, Bool.not_not]
    exact .answered (ih _ _)

theorem serves_of_bind {w : World} {p : Program α} {f : α → Program β} (h : w.serves (p >>= f) = true) :
    w.serves p = true := by
  change w.serves (p.bind f) = true at h
  induction p generalizing w with
  | done value => rfl
  | ask r next ih =>
    rw [Program.bind, serves, Bool.and_eq_true] at h
    rw [serves, Bool.and_eq_true]
    exact ⟨h.1, ih _ h.2⟩

/-- What is asked for first does not fail. -/
theorem isFailure_of_serves {w : World} {r : Request} {f : r.Answer → Action β}
    (h : w.serves (Action.ofProgram (Program.request r) >>= f).run = true) :
    r.isFailure (w.perform r).1 = false := by
  change w.serves (.ask r _) = true at h
  rw [serves, Bool.and_eq_true, Bool.not_eq_true'] at h
  exact h.1

end World

namespace Course

variable {α β : Type} {w w' : World} {failed : Bool}

theorem of_serves {p : Program α} (h : w.serves p = true) :
    Course w p false (some (w.run p).1) (w.run p).2 := by
  have hcourse := w.course_run p
  rwa [h] at hcourse

/-- A course of one program after another is one of the first, which is stopped, or ends before the second. -/
theorem of_bind {p : Program α} {f : α → Program β} {result : Option β}
    (h : Course w (p >>= f) failed result w') :
    Course w p failed none w' ∧ result = none ∨ ∃ first second value middle,
      Course w p first (some value) middle ∧ Course middle (f value) second result w' ∧
        failed = (first || second) := by
  change Course w (p.bind f) failed result w' at h
  induction p generalizing w failed with
  | done value => exact .inr ⟨false, failed, value, w, .done w value, h, rfl⟩
  | ask r next ih =>
    cases h with
    | stopped _ hdisk => exact .inl ⟨.stopped next hdisk, rfl⟩
    | answered h =>
      rcases ih _ h with ⟨hstopped, rfl⟩ | ⟨first, second, value, middle, hfirst, hsecond, rfl⟩
      · exact .inl ⟨.answered hstopped, rfl⟩
      · exact .inr ⟨_, second, value, middle, .answered hfirst, hsecond, (Bool.or_assoc ..).symm⟩
    | refused hrefuse refusal hdisk h =>
      rcases ih _ h with ⟨hstopped, rfl⟩ | ⟨first, second, value, middle, hfirst, hsecond, rfl⟩
      · exact .inl ⟨.refused hrefuse refusal hdisk hstopped, rfl⟩
      · exact .inr ⟨true, second, value, middle, .refused hrefuse refusal hdisk hfirst, hsecond, rfl⟩

/-- The same for actions: after an error, nothing is done. -/
theorem of_act_bind {a : Action α} {f : α → Action β} {result : Option (Except Error β)}
    (h : Course w (a >>= f).run failed result w') :
    Course w a.run failed none w' ∧ result = none ∨
    (∃ e, Course w a.run failed (some (.error e)) w' ∧ result = some (.error e)) ∨
    ∃ first second value middle, Course w a.run first (some (.ok value)) middle ∧
      Course middle (f value).run second result w' ∧ failed = (first || second) := by
  rcases of_bind (p := a.run) h with hstopped | ⟨first, second, answer, middle, hfirst, hsecond, rfl⟩
  · exact .inl hstopped
  · cases answer with
    | ok value => exact .inr (.inr ⟨first, second, value, middle, hfirst, hsecond, rfl⟩)
    | error e =>
      cases hsecond
      rw [Bool.or_false]
      exact .inr (.inl ⟨e, hfirst, rfl⟩)

/-- The courses of an action that asks for something first. -/
theorem of_ask {r : Request} {f : r.Answer → Action β} {result : Option (Except Error β)}
    (h : Course w (Action.ofProgram (Program.request r) >>= f).run failed result w') :
    (failed = false ∧ result = none ∧ ∃ disk, w.disk.Torn w.cwd r disk ∧ w' = { w with disk := disk }) ∨
    (∃ later, failed = (r.isFailure (w.perform r).1 || later) ∧
      Course (w.perform r).2 (f (w.perform r).1).run later result w') ∨
    failed = true ∧ ∃ refuse refusal disk later, r.refuse? = some refuse ∧ w.disk.Torn w.cwd r disk ∧
      Course { w with disk := disk } (f (refuse refusal)).run later result w' := by
  change Course w (.ask r fun answer => (f answer).run) failed result w' at h
  cases h with
  | stopped _ hdisk => exact .inl ⟨rfl, rfl, _, hdisk, rfl⟩
  | answered h => exact .inr (.inl ⟨_, rfl, h⟩)
  | refused hrefuse refusal hdisk h => exact .inr (.inr ⟨rfl, _, refusal, _, _, hrefuse, hdisk, h⟩)

theorem of_orFail {p : Program (Except Refusal α)} {failure : Refusal → Error}
    {result : Option (Except Error α)} (h : Course w (Action.orFail p failure).run failed result w') :
    ∃ answer, Course w p failed answer w' ∧ result = answer.map (Except.mapError failure) := by
  rcases of_bind (p := p) h with ⟨hstopped, rfl⟩ | ⟨first, second, answer, middle, hfirst, hsecond, rfl⟩
  · exact ⟨none, hstopped, rfl⟩
  · refine ⟨some answer, ?_⟩
    cases answer <;>
    · cases hsecond
      rw [Bool.or_false]
      exact ⟨hfirst, rfl⟩

/-- However far directories are made, the disk is between the one before and the one with all of them. -/
theorem of_makeDirectories {path : Path} {answer : Option (Except Refusal Unit)}
    (h : Course w (Program.request (.makeDirectories path)) failed answer w') :
    let made := (w.disk.makeDirectories w.cwd path).2
    w.disk.Grows w'.disk ∧ w'.disk.Grows made ∧
      (∀ refusal, answer = some (.error refusal) → failed = true) ∧
      (answer = some (.ok ()) → failed = false ∧ w' = { w with disk := made }) := by
  intro made
  have hmade : w.disk.Grows made := Disk.grows_makeDirectories
  have htorn {disk : Disk} (h : w.disk.Torn w.cwd (.makeDirectories path) disk) :
      w.disk.Grows disk ∧ disk.Grows made := by
    cases h with
    | before => exact ⟨.refl _, hmade⟩
    | making hstage => exact Disk.grows_of_mem_stages hstage
  change Course w (.ask (.makeDirectories path) .done) failed answer w' at h
  cases h with
  | stopped _ hdisk => exact ⟨(htorn hdisk).1, (htorn hdisk).2, nofun, nofun⟩
  | refused hrefuse refusal hdisk h =>
    cases hrefuse
    cases h
    exact ⟨(htorn hdisk).1, (htorn hdisk).2, fun _ _ => rfl, nofun⟩
  | answered h =>
    cases h
    refine ⟨hmade, .refl _, fun refusal hrefused => ?_, fun hok => ?_⟩
    · rw [Option.some.inj hrefused]
      rfl
    · rw [Option.some.inj hok]
      exact ⟨rfl, rfl⟩

theorem cwd_eq {p : Program α} {result : Option α} (h : Course w p failed result w') : w'.cwd = w.cwd := by
  induction h with
  | done => rfl
  | stopped => rfl
  | @answered w _ r _ _ _ _ ih =>
    refine ih.trans ?_
    cases r <;> rfl
  | refused _ _ _ _ ih => exact ih

end Course
end ParseGoal
