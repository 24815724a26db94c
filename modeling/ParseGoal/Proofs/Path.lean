import ParseGoal.Disk.Walk

/-! The names of a path, and of a path with one more name. -/
namespace ParseGoal.Path

/-- A name that leads into a directory: it has no slash, and is neither empty nor made of dots only. -/
structure IsName (name : String) : Prop where
  nonempty : name.toList ≠ []
  slashless : '/' ∉ name.toList
  not_dot : name ≠ "."
  not_dots : name ≠ ".."

theorem pieces_ne_nil (text : List Char) : pieces text ≠ [] := by
  cases text with
  | nil => exact List.cons_ne_nil _ _
  | cons c rest =>
    rw [pieces]
    split
    · exact List.cons_ne_nil _ _
    · split <;> exact List.cons_ne_nil _ _

theorem pieces_append_slash (text rest : List Char) :
    pieces (text ++ '/' :: rest) = pieces text ++ pieces rest := by
  induction text with
  | nil =>
    exact if_pos rfl
  | cons c more ih =>
    rw [List.cons_append, pieces, pieces, ih]
    by_cases hc : c = '/'
    · rw [if_pos hc, if_pos hc]
      rfl
    · rw [if_neg hc, if_neg hc]
      cases hpieces : pieces more with
      | nil => exact absurd hpieces (pieces_ne_nil more)
      | cons piece others => rfl

theorem pieces_of_slashless {text : List Char} (h : '/' ∉ text) : pieces text = [text] := by
  induction text with
  | nil => rfl
  | cons c rest ih =>
    have hc : c ≠ '/' := fun heq => h (heq ▸ List.mem_cons_self)
    rw [pieces, if_neg hc, ih fun hmem => h (List.mem_cons_of_mem c hmem)]

variable {name : String}

theorem IsName.isAbsolute_eq (h : IsName name) : isAbsolute name = false := by
  unfold isAbsolute
  cases hname : name.toList with
  | nil => rfl
  | cons c rest =>
    have hc : c ≠ '/' := fun heq => h.slashless (hname ▸ heq ▸ List.mem_cons_self)
    simpa using hc

theorem steps_name (h : IsName name) : steps name = [name] := by
  rw [steps, pieces_of_slashless h.slashless]
  simp [h.nonempty]

/-- What stands before a name that is put below a path. -/
theorem toList_join (path : Path) (h : IsName name) :
    ∃ above, (join path name).toList = above ++ name.toList ∧ (path.toList = [] ∧ above = [] ∨
      ∃ front, above = front ++ ['/'] ∧ (path.toList = front ∧ front ≠ [] ∨ path.toList = above)) := by
  unfold join
  rw [h.isAbsolute_eq, if_neg Bool.false_ne_true]
  split
  · next hpath =>
    refine ⟨path.toList, String.toList_append, ?_⟩
    rcases hpath with hempty | hlast
    · have hnil : path.toList = [] := by simpa using hempty
      exact .inl ⟨hnil, hnil⟩
    · obtain ⟨front, hfront⟩ := List.getLast?_eq_some_iff.1 hlast
      exact .inr ⟨front, hfront, .inr rfl⟩
  · next hpath =>
    have hnonempty : path.toList ≠ [] := fun hnil => hpath (.inl (by simpa using hnil))
    refine ⟨path.toList ++ ['/'], ?_, .inr ⟨path.toList, rfl, .inl ⟨rfl, hnonempty⟩⟩⟩
    rw [String.toList_append, String.toList_append]
    rfl

theorem steps_join (path : Path) (h : IsName name) : steps (join path name) = steps path ++ [name] := by
  have hname : ((pieces name.toList).filter (· ≠ [])).map String.ofList = [name] := steps_name h
  obtain ⟨above, heq, ⟨hpath, rfl⟩ | ⟨front, rfl, hpath⟩⟩ := toList_join path h
  · rw [steps, steps, heq, hpath, List.nil_append, hname]
    rfl
  · have hfront : steps path = ((pieces front).filter (· ≠ [])).map String.ofList := by
      rcases hpath with ⟨hpath, -⟩ | hpath
      · rw [steps, hpath]
      · rw [steps, hpath, pieces_append_slash, List.filter_append, List.map_append]
        exact List.append_nil _
    rw [hfront, steps, heq, List.append_assoc, List.singleton_append, pieces_append_slash,
      List.filter_append, List.map_append, hname]

theorem isAbsolute_join (path : Path) (h : IsName name) :
    isAbsolute (join path name) = isAbsolute path := by
  obtain ⟨above, heq, ⟨hpath, rfl⟩ | ⟨front, rfl, hpath⟩⟩ := toList_join path h
  · have hname := h.isAbsolute_eq
    rw [isAbsolute] at hname
    rw [isAbsolute, isAbsolute, heq, List.nil_append, hname, hpath]
    rfl
  · rw [isAbsolute, isAbsolute, heq]
    rcases hpath with ⟨hpath, hne⟩ | hpath
    · obtain ⟨c, rest, hcons⟩ := List.exists_cons_of_ne_nil hne
      rw [hpath, hcons]
      rfl
    · rw [hpath]
      cases front <;> rfl

theorem endsInSlash_join (path : Path) (h : IsName name) : endsInSlash (join path name) = false := by
  obtain ⟨above, heq, -⟩ := toList_join path h
  unfold endsInSlash
  rw [heq, List.getLast?_append, decide_eq_false_iff_not]
  cases hlast : name.toList.getLast? with
  | none => exact absurd (List.getLast?_eq_none_iff.1 hlast) h.nonempty
  | some c =>
    change ¬some c = some '/'
    rintro ⟨rfl⟩
    exact h.slashless (List.mem_of_getLast? hlast)

/-! The extension of a name. -/

theorem front_eq_nil {text : List Char} (hslash : '/' ∉ text) (hdot : text ≠ ['.']) : front text = [] := by
  unfold front
  split <;> simp_all

theorem dropEmpty_cons {c : Char} {rest : List Char} (hslash : c ≠ '/') (hdot : c ≠ '.') :
    dropEmpty (c :: rest) = c :: rest := by
  unfold dropEmpty
  split <;> simp_all

/-- A name that ends in an extension is the last name of itself. -/
theorem fileName?_eq {name : String} {body ext : List Char} (hname : name.toList = body ++ '.' :: ext)
    (hslash : '/' ∉ name.toList) (hbody : body ≠ []) (hext : ext ≠ []) (hdot : '.' ∉ ext) :
    fileName? name = some name := by
  obtain ⟨first, more, rfl⟩ := List.exists_cons_of_ne_nil hbody
  obtain ⟨before, last, rfl⟩ := (List.eq_nil_or_concat ext).resolve_left hext
  have hreversed : name.toList.reverse = last :: (before.reverse ++ '.' :: (first :: more).reverse) := by
    simp [hname]
  have hlast : last ≠ '/' := by
    rintro rfl
    exact hslash (by simp [hname])
  have hbody : reversedBody name = name.toList.reverse := by
    rw [reversedBody, front_eq_nil hslash (by simp [hname]), List.length_nil, List.drop_zero, hreversed]
    refine dropEmpty_cons hlast ?_
    rintro rfl
    exact hdot (by simp)
  have hall : ∀ c ∈ name.toList.reverse, decide (c ≠ '/') = true := fun c hc =>
    decide_eq_true fun heq => hslash (heq ▸ List.mem_reverse.1 hc)
  have htake : name.toList.reverse.takeWhile (· ≠ '/') = name.toList.reverse := by
    have happend : (name.toList.reverse ++ []).takeWhile (· ≠ '/') = name.toList.reverse ++ [] :=
      List.takeWhile_append_of_pos hall
    rwa [List.append_nil] at happend
  rw [fileName?, hbody, htake, List.reverse_reverse]
  split
  · next hnil => simp [hname] at hnil
  · next hdots =>
    have hlength := congrArg List.length hdots
    simp [hname] at hlength
    omega
  · rw [String.ofList_toList]

/-- What follows the last dot of the last name is the extension, unless the name starts with that dot. -/
theorem extension?_of_fileName? {path : Path} {body ext : List Char} (hpath : fileName? path = some name)
    (hname : name.toList = body ++ '.' :: ext) (hbody : body ≠ []) (hdot : '.' ∉ ext) :
    extension? path = some (String.ofList ext) := by
  obtain ⟨before, first, rfl⟩ := (List.eq_nil_or_concat body).resolve_left hbody
  have hreversed : name.toList.reverse = ext.reverse ++ '.' :: (first :: before.reverse) := by simp [hname]
  have hall : ∀ c ∈ ext.reverse, decide (c ≠ '.') = true := fun c hc =>
    decide_eq_true fun heq => hdot (heq ▸ List.mem_reverse.1 hc)
  have hdrop : name.toList.reverse.dropWhile (· ≠ '.') = '.' :: first :: before.reverse := by
    rw [hreversed, List.dropWhile_append_of_pos hall]
    rfl
  have htake : name.toList.reverse.takeWhile (· ≠ '.') = ext.reverse := by
    rw [hreversed, List.takeWhile_append_of_pos hall]
    exact List.append_nil _
  rw [extension?, hpath, Option.bind_eq_bind, Option.bind_some]
  simp only [hdrop, htake, List.reverse_reverse]

theorem extension?_eq {body ext : List Char} (hname : name.toList = body ++ '.' :: ext)
    (hslash : '/' ∉ name.toList) (hbody : body ≠ []) (hext : ext ≠ []) (hdot : '.' ∉ ext) :
    extension? name = some (String.ofList ext) :=
  extension?_of_fileName? (fileName?_eq hname hslash hbody hext hdot) hname hbody hdot

end ParseGoal.Path
