import Mathlib.Data.List.Nodup
import ParseGoal.Proofs.Disk.Operations
import ParseGoal.Proofs.World

/-! The names in a directory: one for each entry, and none twice whatever a program does. -/
namespace ParseGoal

namespace Disk

variable {disk : Disk} {name : String} {above place : Location}

/-- The name of a location in a directory. -/
def nameIn (above : Location) : Location → Option String
  | name :: there => if there = above then some name else none
  | [] => none

theorem names_eq (disk : Disk) (above : Location) :
    disk.names above = (disk.entries.map Prod.fst).filterMap (nameIn above) := by
  rw [names, List.filterMap_map]
  rfl

theorem nameIn_eq_some : nameIn above place = some name ↔ place = name :: above := by
  cases place with
  | nil => exact ⟨nofun, nofun⟩
  | cons other there =>
    rw [nameIn]
    split <;> simp_all

theorem mem_names_iff : name ∈ disk.names above ↔ ∃ entry, disk.entry? (name :: above) = some entry := by
  refine ⟨fun h => ?_, fun ⟨entry, hentry⟩ => mem_names hentry⟩
  rw [names_eq] at h
  obtain ⟨place, hplace, hname⟩ := List.mem_filterMap.1 h
  rw [nameIn_eq_some.1 hname] at hplace
  obtain ⟨⟨_, entry⟩, hmem, rfl⟩ := List.mem_map.1 hplace
  rw [Disk.entry?, if_neg (List.cons_ne_nil _ _), ← Option.ne_none_iff_exists', Ne, List.lookup_eq_none_iff]
  intro hnone
  exact absurd (hnone _ hmem) (by simp)

theorem nodup_names_erase (h : (disk.names above).Nodup) (place : Location) :
    ((disk.erase place).names above).Nodup :=
  h.sublist (List.filter_sublist.filterMap _)

theorem nodup_names_put (h : (disk.names above).Nodup) (place : Location) (entry : Entry) :
    ((disk.put place entry).names above).Nodup := by
  have herased := nodup_names_erase h place
  have hput : (disk.put place entry).names above =
      (nameIn above place).toList ++ (disk.erase place).names above := by
    rw [names_eq, names_eq]
    change List.filterMap _ (place :: _) = _
    rw [List.filterMap_cons]
    cases nameIn above place <;> rfl
  rw [hput]
  cases hname : nameIn above place with
  | none => exact herased
  | some name =>
    obtain rfl := nameIn_eq_some.1 hname
    refine List.nodup_cons.2 ⟨fun hmem => ?_, herased⟩
    obtain ⟨found, hfound⟩ := mem_names_iff.1 hmem
    rw [entry?_erase, if_pos rfl] at hfound
    cases hfound

/-! All that operations do to a disk is to put and erase entries. -/

section

variable {P : Disk → Prop} (hput : ∀ disk place entry, P disk → P (disk.put place entry))
  (herase : ∀ disk place, P disk → P (disk.erase place)) (h : P disk)

include hput h

theorem write_induction (cwd : Location) (path : Path) (content : Bytes) :
    P (disk.write cwd path content).2 := by
  unfold write
  split
  · exact hput _ _ _ h
  · exact h
  · split
    · exact h
    · exact hput _ _ _ h
  · exact h

theorem makeDirectory_induction (cwd : Location) (path : Path) : P (disk.makeDirectory cwd path).2 := by
  unfold makeDirectory create
  split
  · exact h
  · exact hput _ _ _ h
  · exact h

include herase

theorem rename_induction (cwd : Location) (source target : Path) : P (disk.rename cwd source target).2 := by
  unfold rename
  split
  case h_6 => exact hput _ _ _ (herase _ _ h)
  case h_7 =>
    split
    · exact h
    · exact hput _ _ _ (herase _ _ h)
  all_goals exact h

omit hput in
theorem remove_induction (cwd : Location) (path : Path) : P (disk.remove cwd path).2 := by
  unfold remove
  split
  case h_2 => exact herase _ _ h
  all_goals exact h

end
end Disk

namespace World

variable {P : Disk → Prop} (hput : ∀ disk place entry, P disk → P (disk.put place entry))
  (herase : ∀ disk place, P disk → P (disk.erase place))

include hput herase

/-- What every entry that is put or erased keeps is kept by every program. -/
theorem run_induction {α : Type} {w : World} (h : P w.disk) (p : Program α) : P (w.run p).2.disk := by
  induction p generalizing w with
  | done value => exact h
  | ask r next ih =>
    refine ih _ ?_
    cases r with
    | writeFile path content => exact Disk.write_induction hput h w.cwd path content
    | makeDirectories path =>
      exact Disk.makeEach_induction (P := P)
        (fun _ path h => Disk.makeDirectory_induction hput h w.cwd path) h _
    | rename source target => exact Disk.rename_induction hput herase h w.cwd source target
    | removeFile path => exact Disk.remove_induction herase h w.cwd path
    | _ => exact h

end World
end ParseGoal
