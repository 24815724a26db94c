import Mathlib.Tactic.SplitIfs
import ParseGoal.Program.Interleave
import ParseGoal.Proofs.World

/-!
Programs that take turns, one request at a time. Each relies on what the others leave alone while it waits,
and guarantees as much to them; from this alone it follows how each of them ends, in whatever order they go.
-/
namespace ParseGoal.Program

variable {α β : Type}

/-- What a program relies on between two of its requests, and what it guarantees of each request. -/
structure Terms where
  rely : World → World → Prop
  guarantee : World → World → Prop
  refl (w : World) : rely w w
  trans {w w' w'' : World} (h : rely w w') (h' : rely w' w'') : rely w w''

/--
A program keeps to terms in a world: as long as others do only what it relies on, each request that is not
refused does what it guarantees, and it ends with a value and a world as told.
-/
def Abides (terms : Terms) (ends : α → World → Prop) : Program α → World → Prop
  | .done value, w => ∀ w', terms.rely w w' → ends value w'
  | .ask r next, w => ∀ w', terms.rely w w' → r.isRefused (w'.perform r).1 = false →
      terms.guarantee w' (w'.perform r).2 ∧ Abides terms ends (next (w'.perform r).1) (w'.perform r).2

namespace Abides

variable {terms : Terms} {ends : α → World → Prop} {w w' : World}

/-- It still does after others have gone on. -/
theorem mono {p : Program α} (h : Abides terms ends p w) (hrely : terms.rely w w') :
    Abides terms ends p w' := by
  cases p with
  | done value => exact fun w'' hmore => h w'' (terms.trans hrely hmore)
  | ask r next => exact fun w'' hmore => h w'' (terms.trans hrely hmore)

theorem imp {ends' : α → World → Prop} {p : Program α} (h : Abides terms ends p w)
    (himp : ∀ value w', ends value w' → ends' value w') : Abides terms ends' p w := by
  induction p generalizing w with
  | done value => exact fun w' hrely => himp value w' (h w' hrely)
  | ask r next ih => exact fun w' hrely hgranted => ⟨(h w' hrely hgranted).1, ih _ (h w' hrely hgranted).2⟩

/-- What is asked for first, where it is not refused. -/
theorem request {r : Request} {f : r.Answer → Program α}
    (h : ∀ w', terms.rely w w' → r.isRefused (w'.perform r).1 = false →
      terms.guarantee w' (w'.perform r).2 ∧ Abides terms ends (f (w'.perform r).1) (w'.perform r).2) :
    Abides terms ends (Program.request r >>= f) w := h

theorem ask {ends : Except Error α → World → Prop} {r : Request} {f : r.Answer → Action α}
    (h : ∀ w', terms.rely w w' → r.isRefused (w'.perform r).1 = false →
      terms.guarantee w' (w'.perform r).2 ∧ Abides terms ends (f (w'.perform r).1).run (w'.perform r).2) :
    Abides terms ends (Action.ofProgram (Program.request r) >>= f).run w := h

theorem done {value : α} (h : Abides terms ends (.done value) w) : ends value w := h w (terms.refl w)

/-- One program after another. -/
theorem bind {ends : β → World → Prop} {middle : α → World → Prop} {p : Program α} {f : α → Program β}
    (hp : Abides terms middle p w) (hf : ∀ value w', middle value w' → Abides terms ends (f value) w') :
    Abides terms ends (p >>= f) w := by
  change Abides terms ends (p.bind f) w
  induction p generalizing w with
  | done value => exact hf value w hp.done
  | ask r next ih => exact fun w' hrely hgranted => ⟨(hp w' hrely hgranted).1, ih _ (hp w' hrely hgranted).2⟩

/-- One action after another; after an error, nothing is done. -/
theorem act_bind {ends : Except Error β → World → Prop} {middle : Except Error α → World → Prop}
    {a : Action α} {f : α → Action β} (ha : Abides terms middle a.run w)
    (hok : ∀ value w', middle (.ok value) w' → Abides terms ends (f value).run w')
    (herror : ∀ e w', middle (.error e) w' → Abides terms ends (.done (.error e)) w') :
    Abides terms ends (a >>= f).run w := by
  refine bind (p := a.run) ha fun answer w' hmiddle => ?_
  cases answer with
  | ok value => exact hok value w' hmiddle
  | error e => exact herror e w' hmiddle

end Abides

/-- Programs that have taken turns: one after another has made a request that was not refused. -/
inductive Turns : World → List (Program α) → World → List (Program α) → Prop
  | refl (w : World) (programs : List (Program α)) : Turns w programs w programs
  | turn {w w' : World} {programs programs' : List (Program α)} {i : Nat} {r : Request}
      {next : r.Answer → Program α} (hprogram : programs[i]? = some (.ask r next))
      (hgranted : r.isRefused (w.perform r).1 = false)
      (h : Turns (w.perform r).2 (programs.set i (next (w.perform r).1)) w' programs') :
      Turns w programs w' programs'

namespace Turns

variable {w w' w'' : World} {programs programs' programs'' : List (Program α)}

theorem trans (h : Turns w programs w' programs') (h' : Turns w' programs' w'' programs'') :
    Turns w programs w'' programs'' := by
  induction h with
  | refl => exact h'
  | turn hprogram hgranted _ ih => exact .turn hprogram hgranted (ih h')

theorem length_eq (h : Turns w programs w' programs') : programs'.length = programs.length := by
  induction h with
  | refl => rfl
  | turn _ _ _ ih => rw [ih, List.length_set]

/-- One of the programs may run to its end. -/
theorem run {i : Nat} {p : Program α} (hprogram : programs[i]? = some p) (hgrants : w.grants p = true) :
    Turns w programs (w.run p).2 (programs.set i (.done (w.run p).1)) := by
  induction p generalizing w programs with
  | done value =>
    obtain ⟨hlength, hvalue⟩ := List.getElem?_eq_some_iff.1 hprogram
    rw [World.run, ← hvalue, List.set_getElem_self]
    exact .refl w programs
  | ask r next ih =>
    rw [World.grants, Bool.and_eq_true, Bool.not_eq_true'] at hgrants
    obtain ⟨hlength, -⟩ := List.getElem?_eq_some_iff.1 hprogram
    refine .turn hprogram hgrants.1 ?_
    have hrest := ih (w.perform r).1 (List.getElem?_set_self hlength) hgrants.2
    rwa [List.set_set] at hrest

end Turns

/-- What is left of a program. -/
def Slot.rest : Slot α → Program α
  | .waiting program => program
  | .running rest => rest
  | .finished value => .done value

private theorem getElem?_length (before after : List (Program α)) (p : Program α) :
    (before ++ p :: after)[before.length]? = some p := by
  simp

private theorem set_length (before after : List (Program α)) (p q : Program α) :
    (before ++ p :: after).set before.length q = (before ++ [q]) ++ after := by
  simp

variable {w : World}

theorem turns_finishRunning (before : List (Program α)) {slots : List (Slot α)}
    (hgrants : w.grants (finishRunning slots) = true) :
    Turns w (before ++ slots.map Slot.rest) (w.run (finishRunning slots)).2
      (before ++ (w.run (finishRunning slots)).1.map Slot.rest) := by
  induction slots generalizing w before with
  | nil => exact .refl w _
  | cons slot slots ih =>
    -- A slot that does not run stays as it is.
    have hstays (hslot : finishRunning (slot :: slots) = (do return slot :: (← finishRunning slots))) :
        Turns w (before ++ (slot :: slots).map Slot.rest) (w.run (finishRunning (slot :: slots))).2
          (before ++ (w.run (finishRunning (slot :: slots))).1.map Slot.rest) := by
      rw [hslot, World.grants_bind, World.grants_pure, Bool.and_true] at hgrants
      have hrest := ih (before ++ [slot.rest]) hgrants
      rw [hslot, World.run_bind, World.run_pure, List.map_cons, List.map_cons]
      simpa using hrest
    cases slot with
    | waiting program => exact hstays rfl
    | finished value => exact hstays rfl
    | running rest =>
      rw [finishRunning, World.grants_bind, World.grants_bind, World.grants_pure, Bool.and_true,
        Bool.and_eq_true] at hgrants
      have hfirst := Turns.run (getElem?_length before (slots.map Slot.rest) rest) hgrants.1
      rw [set_length] at hfirst
      have hrest := ih (before ++ [.done (w.run rest).1]) hgrants.2
      rw [finishRunning, World.run_bind, World.run_bind, World.run_pure, List.map_cons, List.map_cons]
      refine hfirst.trans ?_
      simpa [Slot.rest] using hrest

theorem finishAll_cons (slot : Slot α) (slots : List (Slot α)) :
    finishAll (slot :: slots) = (do
      let value ← slot.rest
      return value :: (← finishAll slots)) := by
  cases slot <;> rfl

theorem turns_finishAll (before : List (Program α)) {slots : List (Slot α)}
    (hgrants : w.grants (finishAll slots) = true) :
    Turns w (before ++ slots.map Slot.rest) (w.run (finishAll slots)).2
      (before ++ (w.run (finishAll slots)).1.map .done) := by
  induction slots generalizing w before with
  | nil => exact .refl w _
  | cons slot slots ih =>
    rw [finishAll_cons, World.grants_bind, World.grants_bind, World.grants_pure, Bool.and_true,
      Bool.and_eq_true] at hgrants
    have hfirst := Turns.run (getElem?_length before (slots.map Slot.rest) slot.rest) hgrants.1
    rw [set_length] at hfirst
    have hrest := ih (before ++ [.done (w.run slot.rest).1]) hgrants.2
    rw [finishAll_cons, World.run_bind, World.run_bind, World.run_pure, List.map_cons, List.map_cons]
    refine hfirst.trans ?_
    simpa using hrest

/-- A slot that changes only its kind has the same program left. -/
theorem map_rest_set {slots : List (Slot α)} {i : Nat} {slot slot' : Slot α} (hslot : slots[i]? = some slot)
    (hrest : slot'.rest = slot.rest) : (slots.set i slot').map Slot.rest = slots.map Slot.rest := by
  obtain ⟨hlength, rfl⟩ := List.getElem?_eq_some_iff.1 hslot
  rw [List.map_set, hrest, ← List.getElem_map Slot.rest, List.set_getElem_self]
  rwa [List.length_map]

/-- Whatever the turns and the limit, interleaving lets the programs take turns until all have ended. -/
theorem turns_interleave (limit : Nat) (turns : List Nat) {slots : List (Slot α)}
    (hgrants : w.grants (interleave limit turns slots) = true) :
    Turns w (slots.map Slot.rest) (w.run (interleave limit turns slots)).2
      ((w.run (interleave limit turns slots)).1.map .done) := by
  induction turns generalizing w slots with
  | nil =>
    rw [interleave, World.grants_bind, Bool.and_eq_true] at hgrants
    rw [interleave, World.run_bind]
    exact (turns_finishRunning [] hgrants.1).trans (turns_finishAll [] hgrants.2)
  | cons turn turns ih =>
    rw [interleave] at hgrants ⊢
    -- To begin a program or to put down its answer is no turn: what is left of the programs stays.
    split at hgrants
    · next program hslot =>
      have hbegun : (slots.set turn (.running program)).map Slot.rest = slots.map Slot.rest :=
        map_rest_set hslot rfl
      split_ifs at hgrants ⊢
      · exact hbegun ▸ ih hgrants
      · exact ih hgrants
    · next value hslot =>
      have hended : (slots.set turn (.finished value)).map Slot.rest = slots.map Slot.rest :=
        map_rest_set hslot rfl
      exact hended ▸ ih hgrants
    · next r next hslot =>
      rw [World.grants, Bool.and_eq_true, Bool.not_eq_true'] at hgrants
      have hprogram : (slots.map Slot.rest)[turn]? = some (.ask r next) := by
        rw [List.getElem?_map, hslot]
        rfl
      refine .turn hprogram hgrants.1 ?_
      have hrest := ih hgrants.2
      rwa [List.map_set] at hrest
    · exact ih hgrants

/-- The terms of a program, and how it ends. -/
structure Contract (α : Type) extends Terms where
  ends : α → World → Prop

/-- Neither of two programs does what the other does not rely on. -/
def Contract.Fits (first second : Contract α) : Prop :=
  (∀ w w', first.guarantee w w' → second.rely w w') ∧ ∀ w w', second.guarantee w w' → first.rely w w'

/-- Each program keeps to its contract. -/
def Bound (contracts : List (Contract α)) (programs : List (Program α)) (w : World) : Prop :=
  ∀ (i : Nat) contract p, contracts[i]? = some contract → programs[i]? = some p →
    Abides contract.toTerms contract.ends p w

section

variable {contracts : List (Contract α)} {programs programs' : List (Program α)} {w' : World}
  (hfits : contracts.Pairwise Contract.Fits)

include hfits

theorem rely_of_guarantee {i j : Nat} {contract other : Contract α} (hne : i ≠ j)
    (hcontract : contracts[i]? = some contract) (hother : contracts[j]? = some other)
    (h : other.guarantee w w') : contract.rely w w' := by
  obtain ⟨hi, rfl⟩ := List.getElem?_eq_some_iff.1 hcontract
  obtain ⟨hj, rfl⟩ := List.getElem?_eq_some_iff.1 hother
  rcases Nat.lt_or_gt_of_ne hne with hlt | hgt
  · exact (List.pairwise_iff_getElem.1 hfits i j hi hj hlt).2 _ _ h
  · exact (List.pairwise_iff_getElem.1 hfits j i hj hi hgt).1 _ _ h

/-- A turn of one program leaves all of them bound. -/
theorem Bound.turn (h : Bound contracts programs w) (hlength : contracts.length = programs.length) {i : Nat}
    {r : Request} {next : r.Answer → Program α} (hprogram : programs[i]? = some (.ask r next))
    (hgranted : r.isRefused (w.perform r).1 = false) :
    (∃ contract ∈ contracts, contract.guarantee w (w.perform r).2) ∧
      Bound contracts (programs.set i (next (w.perform r).1)) (w.perform r).2 := by
  obtain ⟨hi, -⟩ := List.getElem?_eq_some_iff.1 hprogram
  have hbound : i < contracts.length := hlength ▸ hi
  have hcontract : contracts[i]? = some contracts[i] := List.getElem?_eq_getElem hbound
  obtain ⟨hguarantee, hrest⟩ := h i _ _ hcontract hprogram w (Terms.refl _ w) hgranted
  refine ⟨⟨_, List.mem_of_getElem? hcontract, hguarantee⟩, fun j contract p hother hp => ?_⟩
  by_cases hne : j = i
  · subst hne
    rw [List.getElem?_set_self hi] at hp
    cases hp
    rw [hcontract] at hother
    cases hother
    exact hrest
  · -- The other programs have not moved, and what was done is what they rely on.
    rw [List.getElem?_set_ne (Ne.symm hne)] at hp
    exact (h j contract p hother hp).mono (rely_of_guarantee hfits hne hother hcontract hguarantee)

/-- So do all turns, and together they do no more than what is guaranteed. -/
theorem Bound.turns (hturns : Turns w programs w' programs') (h : Bound contracts programs w)
    (hlength : contracts.length = programs.length) :
    Bound contracts programs' w' ∧ ∀ change : World → World → Prop, (∀ w, change w w) →
      (∀ {w w' w''}, change w w' → change w' w'' → change w w'') →
      (∀ contract ∈ contracts, ∀ w w', contract.guarantee w w' → change w w') → change w w' := by
  induction hturns with
  | refl w programs => exact ⟨h, fun change hrefl _ _ => hrefl w⟩
  | turn hprogram hgranted _ ih =>
    obtain ⟨⟨contract, hcontract, hguarantee⟩, hrest⟩ := h.turn hfits hlength hprogram hgranted
    obtain ⟨hbound, hchange⟩ := ih hrest (by rw [hlength, List.length_set])
    refine ⟨hbound, fun change hrefl htrans hall => ?_⟩
    exact htrans (hall contract hcontract _ _ hguarantee) (hchange change hrefl htrans hall)

/--
Programs whose contracts fit end as their contracts tell, whatever their turns, and each has its result in its
own place; together they do no more than what they guarantee.
-/
theorem run_interleave (limit : Nat) (turns : List Nat) {slots : List (Slot α)}
    (h : Bound contracts (slots.map Slot.rest) w) (hlength : contracts.length = slots.length)
    (hgrants : w.grants (interleave limit turns slots) = true) :
    (w.run (interleave limit turns slots)).1.length = slots.length ∧
    (∀ (i : Nat) contract value, contracts[i]? = some contract →
      (w.run (interleave limit turns slots)).1[i]? = some value →
        contract.ends value (w.run (interleave limit turns slots)).2) ∧
    ∀ change : World → World → Prop, (∀ w, change w w) →
      (∀ {w w' w''}, change w w' → change w' w'' → change w w'') →
      (∀ contract ∈ contracts, ∀ w w', contract.guarantee w w' → change w w') →
        change w (w.run (interleave limit turns slots)).2 := by
  have hturns := turns_interleave limit turns hgrants
  obtain ⟨hbound, hchange⟩ := h.turns hfits hturns (by rw [hlength, List.length_map])
  refine ⟨?_, fun i contract value hcontract hvalue => ?_, hchange⟩
  · simpa using hturns.length_eq
  · have hended : ((w.run (interleave limit turns slots)).1.map (Program.done : α → Program α))[i]? =
        some (.done value) := by
      rw [List.getElem?_map, hvalue, Option.map_some]
    exact (hbound i contract _ hcontract hended).done

end

end ParseGoal.Program
