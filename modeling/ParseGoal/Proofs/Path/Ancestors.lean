import Mathlib.Data.List.Infix
import Mathlib.Data.List.TakeWhile
import ParseGoal.Proofs.Path

/-!
The names of an absolute path. Its parent has all of them but the last one, so that the directories around
the path are those of its names cut short, the longest first; the extension is read off the last name.
-/
namespace ParseGoal.Path

/-- The names that a text has between slashes; a name that is one dot means nothing. -/
def namesOf (text : List Char) : List String :=
  (((pieces text).filter (· ≠ [])).map String.ofList).filter (· ≠ ".")

/-- The names of a path. -/
def names (path : Path) : List String := namesOf path.toList

/-- The directories around a file, its own first. -/
def around (path : Path) : List Path := (path.parent?.map ancestors).getD []

/-- The last name of a path ends in a text, with something before that text. -/
def EndsIn (path : Path) (ending : String) : Prop :=
  ∃ stem, stem ≠ "" ∧ path.names.getLast? = some (stem ++ ending)

theorem namesOf_nil : namesOf [] = [] := rfl

theorem namesOf_append_slash (text rest : List Char) :
    namesOf (text ++ '/' :: rest) = namesOf text ++ namesOf rest := by
  simp only [namesOf, pieces_append_slash, List.filter_append, List.map_append]

theorem namesOf_cons_slash (text : List Char) : namesOf ('/' :: text) = namesOf text :=
  namesOf_append_slash [] text

/-- A text without slashes is a name by itself, unless it means nothing. -/
theorem namesOf_of_slashless {text : List Char} (hslash : '/' ∉ text) (hne : text ≠ [])
    (hdot : text ≠ ['.']) : namesOf text = [String.ofList text] := by
  have hname : String.ofList text ≠ "." := fun heq => hdot (by simpa using congrArg String.toList heq)
  rw [namesOf, pieces_of_slashless hslash]
  simp [hne, hname]

/-- Dropping what means nothing drops no names. -/
theorem namesOf_dropEmpty (reversed : List Char) :
    namesOf (dropEmpty reversed).reverse = namesOf reversed.reverse := by
  fun_induction dropEmpty reversed with
  | case1 rest ih =>
    rw [ih, List.reverse_cons, namesOf_append_slash, namesOf_nil, List.append_nil]
  | case2 => rfl
  | case3 rest ih =>
    have hdot : ('.' :: '/' :: rest).reverse = rest.reverse ++ '/' :: ['.'] := by simp
    rw [ih, hdot, namesOf_append_slash]
    exact (List.append_nil _).symm
  | case4 => rfl

/-- What is left starts with a name, if anything is left. -/
theorem takeWhile_dropEmpty {reversed : List Char} (h : dropEmpty reversed ≠ []) :
    (dropEmpty reversed).takeWhile (· ≠ '/') ≠ [] ∧ (dropEmpty reversed).takeWhile (· ≠ '/') ≠ ['.'] := by
  fun_induction dropEmpty reversed with
  | case1 rest ih => exact ih h
  | case2 => exact absurd rfl h
  | case3 rest ih => exact ih h
  | case4 text hslash hdot hdots =>
    cases text with
    | nil => exact absurd rfl h
    | cons c rest =>
      have hc : c ≠ '/' := fun heq => hslash rest (heq ▸ rfl)
      rw [List.takeWhile_cons_of_pos (by simpa using hc)]
      refine ⟨List.cons_ne_nil _ _, fun heq => ?_⟩
      obtain ⟨rfl, hrest⟩ := List.cons.inj heq
      cases rest with
      | nil => exact hdot rfl
      | cons d more =>
        have hd : d ≠ '/' := fun heq => hdots more (heq ▸ rfl)
        rw [List.takeWhile_cons_of_pos (by simpa using hd)] at hrest
        exact List.cons_ne_nil _ _ hrest

/-- A text that is given in reverse: what comes before its last name, and the name. -/
theorem namesOf_reverse {reversed : List Char} (hne : reversed.takeWhile (· ≠ '/') ≠ [])
    (hdot : reversed.takeWhile (· ≠ '/') ≠ ['.']) :
    namesOf reversed.reverse = namesOf (reversed.dropWhile (· ≠ '/')).reverse ++
      [String.ofList (reversed.takeWhile (· ≠ '/')).reverse] := by
  have hslash : '/' ∉ (reversed.takeWhile (· ≠ '/')).reverse := by
    intro hmem
    have hkept := List.mem_takeWhile_imp (List.mem_reverse.1 hmem)
    simp at hkept
  have hname := namesOf_of_slashless hslash (by simpa using hne)
    (fun heq => hdot (by simpa using congrArg List.reverse heq))
  have hsplit : reversed.reverse = (reversed.dropWhile (· ≠ '/')).reverse ++
      (reversed.takeWhile (· ≠ '/')).reverse := by
    rw [← List.reverse_append, List.takeWhile_append_dropWhile]
  rw [hsplit]
  cases hrest : reversed.dropWhile (· ≠ '/') with
  | nil => rw [List.reverse_nil, List.nil_append, hname, namesOf_nil, List.nil_append]
  | cons c above =>
    have hne : reversed.dropWhile (· ≠ '/') ≠ [] := hrest ▸ List.cons_ne_nil _ _
    obtain rfl : c = '/' := by
      have hhead := List.head_dropWhile_not (· ≠ '/') hne
      simpa only [hrest, List.head_cons, decide_eq_false_iff_not, not_not] using hhead
    rw [List.reverse_cons, List.append_assoc, List.singleton_append, namesOf_append_slash, hname,
      namesOf_append_slash, namesOf_nil, List.append_nil]

theorem exists_of_isAbsolute {path : Path} (h : isAbsolute path = true) : ∃ text, path.toList = '/' :: text := by
  unfold isAbsolute at h
  cases hpath : path.toList with
  | nil => simp [hpath] at h
  | cons c text =>
    obtain rfl : c = '/' := by simpa [hpath] using h
    exact ⟨text, rfl⟩

/-- An absolute path has a parent and a last name, or it has no names. -/
theorem parent?_cases {path : Path} (h : isAbsolute path = true) :
    (parent? path = none ∧ fileName? path = none ∧ names path = []) ∨
      ∃ above name, parent? path = some above ∧ isAbsolute above = true ∧
        names path = names above ++ [name] ∧ fileName? path = if name = ".." then none else some name := by
  obtain ⟨text, htext⟩ := exists_of_isAbsolute h
  have hfront : front path.toList = ['/'] := by rw [htext]; rfl
  have hbody : reversedBody path = dropEmpty text.reverse := by
    rw [reversedBody, hfront, htext]
    rfl
  have hnames : names path = namesOf (dropEmpty text.reverse).reverse := by
    rw [namesOf_dropEmpty, List.reverse_reverse, names, htext, namesOf_cons_slash]
  by_cases hnil : dropEmpty text.reverse = []
  · left
    refine ⟨?_, ?_, by rw [hnames, hnil]; rfl⟩
    · rw [parent?, hbody, hnil, hfront]
      rfl
    · rw [fileName?, hbody, hnil]
      rfl
  · right
    obtain ⟨hne, hdot⟩ := takeWhile_dropEmpty hnil
    have hsplit := namesOf_reverse hne hdot
    rw [← hbody] at hnil hne hdot hsplit hnames
    have hparent : parent? path =
        some (String.ofList ('/' :: (dropEmpty ((reversedBody path).dropWhile (· ≠ '/'))).reverse)) := by
      rw [parent?, hfront]
      split
      · next heq => exact absurd heq hnil
      · rfl
    refine ⟨_, String.ofList ((reversedBody path).takeWhile (· ≠ '/')).reverse, hparent, ?_, ?_, ?_⟩
    · rw [isAbsolute, String.toList_ofList]
      rfl
    · rw [hnames, hsplit, names, String.toList_ofList, namesOf_cons_slash, namesOf_dropEmpty]
    · rw [fileName?]
      split
      · next heq => exact absurd (List.reverse_eq_nil_iff.1 heq) hne
      · next heq => rw [heq]; rfl
      · next name _ hdots =>
        refine (if_neg fun heq => hdots ?_).symm
        simpa using congrArg String.toList heq

/-- A name below a path comes after the names of the path. -/
theorem names_join (path : Path) {name : String} (h : IsName name) : names (join path name) = names path ++ [name] := by
  have hnames (other : Path) : names other = (steps other).filter (· ≠ ".") := rfl
  rw [hnames, hnames, steps_join path h, List.filter_append]
  simp [h.not_dot]

/-! The directories around a path. -/

theorem length_pieces_le (text : List Char) : (pieces text).length ≤ text.length + 1 := by
  induction text with
  | nil => exact Nat.le_refl 1
  | cons c rest ih =>
    rw [pieces, List.length_cons]
    split
    · exact Nat.succ_le_succ ih
    · split
      · next piece more heq =>
        rw [heq] at ih
        exact Nat.le_succ_of_le ih
      · exact Nat.le_add_left 1 _

theorem length_names_le {path : Path} (h : isAbsolute path = true) : (names path).length ≤ path.length := by
  obtain ⟨text, htext⟩ := exists_of_isAbsolute h
  rw [names, ← String.length_toList, htext, namesOf_cons_slash, namesOf]
  refine (List.length_filter_le _ _).trans ?_
  rw [List.length_map]
  exact (List.length_filter_le _ _).trans (length_pieces_le text)

/-- Each directory around an absolute path has one name less than the one before it. -/
theorem map_names_ancestorsWithin {path : Path} (h : isAbsolute path = true) {limit : Nat}
    (hlimit : (names path).length < limit) :
    (ancestorsWithin limit path).map names = (names path).inits.reverse := by
  induction limit generalizing path with
  | zero => exact absurd hlimit (Nat.not_lt_zero _)
  | succ limit ih =>
    rw [ancestorsWithin]
    rcases parent?_cases h with ⟨hnone, -, hnil⟩ | ⟨above, name, habove, habsolute, hnames, -⟩
    · rw [hnone, hnil]
      exact congrArg (· :: []) hnil
    · rw [hnames, List.length_append, List.length_singleton] at hlimit
      rw [habove, List.map_cons, ih habsolute (Nat.lt_of_succ_lt_succ hlimit), hnames, List.inits_append]
      simp

/-- The directories around an absolute path are those of its names cut short, the longest first. -/
theorem map_names_around {path : Path} (h : isAbsolute path = true) :
    (around path).map names = (names path).inits.reverse.tail := by
  rcases parent?_cases h with ⟨hnone, -, hnil⟩ | ⟨above, name, habove, habsolute, hnames, -⟩
  · rw [around, hnone, hnil]
    rfl
  · rw [around, habove, hnames]
    change (ancestorsWithin (above.length + 1) above).map names = _
    rw [map_names_ancestorsWithin habsolute (Nat.lt_succ_of_le (length_names_le habsolute)), List.inits_append]
    simp

theorem isAbsolute_of_mem_ancestorsWithin {limit : Nat} {path directory : Path} (h : isAbsolute path = true)
    (hmem : directory ∈ ancestorsWithin limit path) : isAbsolute directory = true := by
  induction limit generalizing path with
  | zero => cases hmem
  | succ limit ih =>
    rcases List.mem_cons.1 hmem with rfl | hmem
    · exact h
    rcases parent?_cases h with ⟨hnone, -, -⟩ | ⟨above, -, habove, habsolute, -, -⟩
    · rw [hnone] at hmem
      cases hmem
    · rw [habove] at hmem
      exact ih habsolute hmem

theorem isAbsolute_of_mem_around {path directory : Path} (h : isAbsolute path = true)
    (hmem : directory ∈ around path) : isAbsolute directory = true := by
  rcases parent?_cases h with ⟨hnone, -, -⟩ | ⟨above, -, habove, habsolute, -, -⟩
  · rw [around, hnone] at hmem
    cases hmem
  · rw [around, habove] at hmem
    exact isAbsolute_of_mem_ancestorsWithin habsolute hmem

/-! The extension of an absolute path. -/

/-- An extension is what the last name ends in, after its last dot and something before that. -/
theorem extension?_eq_some_iff {path : Path} (h : isAbsolute path = true) {ext : String}
    (hne : ext ≠ "") (hdot : '.' ∉ ext.toList) : extension? path = some ext ↔ path.EndsIn ("." ++ ext) := by
  rcases parent?_cases h with ⟨-, hnone, hnil⟩ | ⟨above, name, -, -, hnames, hfile⟩
  · refine iff_of_false (fun hext => ?_) fun ⟨stem, _, hlast⟩ => ?_
    · rw [extension?, hnone] at hext
      cases hext
    · rw [hnil] at hlast
      cases hlast
  constructor
  · intro hext
    split_ifs at hfile with hdots
    · rw [extension?, hfile] at hext
      cases hext
    rw [extension?, hfile, Option.bind_eq_bind, Option.bind_some] at hext
    dsimp only at hext
    split at hext
    · next c more hdrop =>
      have hsplit := List.takeWhile_append_dropWhile (p := (· ≠ '.')) (l := name.toList.reverse)
      generalize name.toList.reverse.takeWhile (· ≠ '.') = ending at hext hsplit
      rw [hdrop] at hsplit
      have hname : name.toList = (c :: more).reverse ++ '.' :: ending.reverse := by
        rw [← List.reverse_reverse name.toList, ← hsplit]
        simp
      obtain rfl := Option.some.inj hext
      refine ⟨String.ofList (c :: more).reverse, by simp, ?_⟩
      rw [hnames, List.getLast?_concat, Option.some.injEq, ← String.toList_inj, hname]
      simp
    · cases hext
  · rintro ⟨stem, hstem, hlast⟩
    rw [hnames, List.getLast?_concat, Option.some.injEq] at hlast
    have hname : name.toList = stem.toList ++ '.' :: ext.toList := by rw [hlast]; simp
    have hdots : name ≠ ".." := by
      rintro rfl
      have hlength := congrArg List.length hname
      have hleft := List.length_pos_of_ne_nil (l := stem.toList) (by simpa using hstem)
      have hright := List.length_pos_of_ne_nil (l := ext.toList) (by simpa using hne)
      rw [List.length_append, List.length_cons] at hlength
      change 2 = _ at hlength
      omega
    rw [if_neg hdots] at hfile
    rw [extension?_of_fileName? hfile hname (by simpa using hstem) hdot, String.ofList_toList]

end ParseGoal.Path
