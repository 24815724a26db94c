import Mathlib.Data.List.Nodup
import ParseGoal.Proofs.Toml.Value

/-!
A document that is written is read back as the table of its sections. Its lines are found one by one, each
whatever comes after it, and the tables are then put together from them.
-/
namespace ParseGoal.Toml

variable {c : Char} {name : String} {text rest : List Char} {found : List Line}

/-- A name that needs no quotes. -/
def isBareName (name : String) : Bool := !name.toList.isEmpty && name.toList.all isBare

theorem bareName_cons (h : isBareName name = true) :
    ∃ c more, name.toList = c :: more ∧ isBare c = true := by
  unfold isBareName at h
  cases hname : name.toList with
  | nil => simp [hname] at h
  | cons c more => exact ⟨c, more, rfl, by simp_all⟩

theorem bare_ne {d : Char} (h : isBare c = true) (hd : isBare d = false) : c ≠ d := by
  rintro rfl
  exact absurd h (by simp [hd])

theorem isBlank_of_isBare (h : isBare c = true) : isBlank c = false := by
  have hspace : c ≠ ' ' := bare_ne h (by decide)
  have htab : c ≠ '\t' := bare_ne h (by decide)
  simp [isBlank, hspace, htab]

/-! Lines. -/

/-- A key of one part ends where a character stands that is not part of a name. -/
theorem anyKey?_bare (h : isBareName name = true) (hc : isBare c = false)
    (hdot : ∀ more, dropBlanks (c :: rest) ≠ '.' :: more) :
    anyKey? (name.toList ++ c :: rest) = some ([], name, dropBlanks (c :: rest)) := by
  obtain ⟨d, more, hname, hd⟩ := bareName_cons h
  have hall : ∀ e ∈ name.toList, isBare e = true := by
    intro e he
    exact List.all_eq_true.1 (Bool.and_eq_true_iff.1 h).2 e he
  have htake : (name.toList ++ c :: rest).takeWhile isBare = name.toList := by
    rw [List.takeWhile_append_of_pos hall, List.takeWhile_cons_of_neg (by simp [hc]), List.append_nil]
  have hdrop : (name.toList ++ c :: rest).dropWhile isBare = c :: rest := by
    rw [List.dropWhile_append_of_pos hall, List.dropWhile_cons_of_neg (by simp [hc])]
  have hblanks : dropBlanks (name.toList ++ c :: rest) = name.toList ++ c :: rest := by
    rw [hname, List.cons_append, dropBlanks, List.dropWhile_cons_of_neg]
    simp [isBlank_of_isBare hd]
  have hpart : keyPart? (name.toList ++ c :: rest) = some (name, c :: rest) := by
    unfold keyPart?
    rw [htake, hdrop, hname, List.cons_append, List.head?_cons]
    split
    · next heq => exact absurd (Option.some.inj heq) (bare_ne hd (by decide))
    · next heq => exact absurd (Option.some.inj heq) (bare_ne hd (by decide))
    · dsimp only
      rw [← hname, String.ofList_toList]
  change key? (78 + 1) _ = _
  unfold key?
  rw [hblanks, hpart]
  dsimp only [Option.bind_eq_bind, Option.bind_some]
  split
  · next heq => exact absurd heq (hdot _)
  · rfl

/-- The lines of a text, however much fuel there is for them. -/
def HasLines (text : List Char) (found : List Line) : Prop :=
  ∀ fuel, text.length ≤ fuel → lines? fuel text = some found

theorem HasLines.nil : HasLines [] [] := by
  intro fuel _
  cases fuel <;> rfl

theorem HasLines.emptyLine (h : HasLines rest found) : HasLines ('\n' :: rest) found := by
  intro fuel hfuel
  obtain ⟨fuel, rfl⟩ := Nat.exists_eq_add_one.2 (Nat.zero_lt_of_lt hfuel)
  exact h fuel (Nat.le_of_succ_le_succ hfuel)

/-- A line is read first, and then the ones after it. -/
theorem HasLines.cons {line : Line} (h : HasLines rest found)
    (hc : isBlank c = false ∧ c ≠ '#' ∧ c ≠ '\n' ∧ c ≠ '\r')
    (hline : line? (c :: text) = some (line, '\n' :: rest)) (hlength : rest.length ≤ text.length) :
    HasLines (c :: text) (line :: found) := by
  intro fuel hfuel
  rw [List.length_cons] at hfuel
  obtain ⟨fuel, rfl⟩ := Nat.exists_eq_add_one.2 (Nat.zero_lt_of_lt hfuel)
  have hblanks : dropBlanks (c :: text) = c :: text := List.dropWhile_cons_of_neg (by simp [hc.1])
  have hend : lineEnd? ('\n' :: rest) = some rest := rfl
  unfold lines?
  rw [hblanks]
  dsimp only
  rw [if_neg (by simp [hc.2]), hline, Option.bind_eq_bind, Option.bind_some]
  dsimp only
  rw [hend, Option.bind_eq_bind, Option.bind_some, h fuel (by omega)]
  rfl

theorem write_cons (value : Plain) : ∃ c more, value.write = c :: more ∧ isBlank c = false := by
  cases value with
  | text s =>
    obtain ⟨q, body, hquote, hq⟩ := quote_cons s.toList
    exact ⟨q, body, hquote, by rcases hq with rfl | rfl <;> rfl⟩
  | number n =>
    obtain ⟨c, more, hdigits, hc⟩ := toDigits_cons n
    exact ⟨c, more, hdigits, isBlank_of_isDigit hc⟩
  | flag b =>
    cases b with
    | true => exact ⟨'t', _, rfl, rfl⟩
    | false => exact ⟨'f', _, rfl, rfl⟩
  | texts items =>
    change ∃ c more, writeTexts items = c :: more ∧ isBlank c = false
    unfold writeTexts
    split <;> exact ⟨'[', _, rfl, rfl⟩

theorem dropBlanks_write (value : Plain) : dropBlanks (value.write ++ rest) = value.write ++ rest := by
  obtain ⟨c, more, hwrite, hc⟩ := write_cons value
  rw [hwrite]
  exact List.dropWhile_cons_of_neg (by simp [hc])

/-- The line of a field. -/
def fieldLine (field : String × Plain) : Line := .entry ⟨[], field.1, field.2.toToml⟩

theorem entry?_writeField {field : String × Plain} (hname : isBareName field.1 = true)
    (hvalue : field.2.IsWritable) : entry? (value? (nestingLimit - 1)) (writeField field ++ rest) =
      some (⟨[], field.1, field.2.toToml⟩, '\n' :: rest) := by
  have htext : writeField field ++ rest =
      field.1.toList ++ ' ' :: '=' :: ' ' :: (field.2.write ++ '\n' :: rest) := by
    simp [writeField]
  have hafter : dropBlanks (' ' :: '=' :: ' ' :: (field.2.write ++ '\n' :: rest)) =
      '=' :: ' ' :: (field.2.write ++ '\n' :: rest) := rfl
  have hkey : anyKey? (field.1.toList ++ ' ' :: '=' :: ' ' :: (field.2.write ++ '\n' :: rest)) =
      some ([], field.1, '=' :: ' ' :: (field.2.write ++ '\n' :: rest)) := by
    refine anyKey?_bare hname (by decide) ?_
    rw [hafter]
    exact fun more heq => absurd (List.cons.inj heq).1 (by decide)
  have hblank : dropBlanks (' ' :: (field.2.write ++ '\n' :: rest)) = field.2.write ++ '\n' :: rest :=
    dropBlanks_write field.2
  unfold entry?
  rw [htext, hkey, Option.bind_eq_bind, Option.bind_some]
  change (value? 79 (dropBlanks (' ' :: (field.2.write ++ '\n' :: rest)))).bind _ = _
  rw [hblank, value?_write 78 hvalue]
  rfl

theorem HasLines.field {field : String × Plain} (hname : isBareName field.1 = true)
    (hvalue : field.2.IsWritable) (h : HasLines rest found) :
    HasLines (writeField field ++ rest) (fieldLine field :: found) := by
  have hentry : entry? (value? (nestingLimit - 1)) (writeField field ++ rest) = _ :=
    entry?_writeField hname hvalue
  have htext : writeField field ++ rest =
      field.1.toList ++ ([' ', '=', ' '] ++ field.2.write ++ '\n' :: rest) := by
    simp [writeField]
  obtain ⟨c, more, hcons, hc⟩ := bareName_cons hname
  rw [htext, hcons, List.cons_append] at hentry ⊢
  refine h.cons ⟨isBlank_of_isBare hc, bare_ne hc (by decide), bare_ne hc (by decide),
    bare_ne hc (by decide)⟩ ?_ (by simp; omega)
  have hbracket : c ≠ '[' := bare_ne hc (by decide)
  unfold line?
  split
  · next heq => exact absurd (List.cons.inj heq).1 hbracket
  · next heq => exact absurd (List.cons.inj heq).1 hbracket
  · rw [hentry]
    rfl

theorem HasLines.fields {fields : List (String × Plain)}
    (hfields : ∀ field ∈ fields, isBareName field.1 = true ∧ field.2.IsWritable)
    (h : HasLines rest found) :
    HasLines (fields.flatMap writeField ++ rest) (fields.map fieldLine ++ found) := by
  induction fields with
  | nil => exact h
  | cons field more ih =>
    obtain ⟨hname, hvalue⟩ := hfields field (.head _)
    rw [List.flatMap_cons, List.append_assoc]
    exact .field hname hvalue (ih fun other hother => hfields other (.tail _ hother))

theorem HasLines.header (hname : isBareName name = true) (h : HasLines rest found) :
    HasLines ('[' :: (name.toList ++ ']' :: '\n' :: rest)) (.header false [] name :: found) := by
  have hkey : anyKey? (name.toList ++ ']' :: '\n' :: rest) = some ([], name, ']' :: '\n' :: rest) := by
    refine anyKey?_bare hname (by decide) ?_
    exact fun more heq => absurd (List.cons.inj heq).1 (by decide)
  refine h.cons (by decide) ?_ (by simp; omega)
  obtain ⟨c, more, hcons, hc⟩ := bareName_cons hname
  have hbracket : c ≠ '[' := bare_ne hc (by decide)
  rw [hcons, List.cons_append] at hkey ⊢
  unfold line?
  split
  · next heq => exact absurd (List.cons.inj (List.cons.inj heq).2).1 hbracket
  · next heq =>
    rw [← (List.cons.inj heq).2]
    unfold header?
    rw [hkey]
    rfl
  · next hno => exact absurd rfl (hno _)

/-- The lines of a section. -/
def sectionLines (entry : String × List (String × Plain)) : List Line :=
  .header false [] entry.1 :: entry.2.map fieldLine

/-- The names are bare and the values can be read back. -/
def IsWritable (written : List (String × List (String × Plain))) : Prop :=
  ∀ entry ∈ written, isBareName entry.1 = true ∧
    ∀ field ∈ entry.2, isBareName field.1 = true ∧ field.2.IsWritable

theorem HasLines.section (entry : String × List (String × Plain)) (hname : isBareName entry.1 = true)
    (hfields : ∀ field ∈ entry.2, isBareName field.1 = true ∧ field.2.IsWritable)
    (h : HasLines rest found) :
    HasLines (writeSection entry.1 entry.2 ++ rest) (sectionLines entry ++ found) := by
  have htext : writeSection entry.1 entry.2 ++ rest =
      '[' :: (entry.1.toList ++ ']' :: '\n' :: (entry.2.flatMap writeField ++ rest)) := by
    simp [writeSection]
  rw [htext]
  exact (h.fields hfields).header hname

theorem HasLines.written {written : List (String × List (String × Plain))} (h : IsWritable written) :
    HasLines (writeSections written) (written.flatMap sectionLines) := by
  fun_induction writeSections written with
  | case1 => exact .nil
  | case2 name fields =>
    obtain ⟨hname, hfields⟩ := h _ (.head _)
    have hsection := HasLines.nil.section (name, fields) hname hfields
    rwa [List.append_nil] at hsection
  | case3 name fields more hmore ih =>
    obtain ⟨hname, hfields⟩ := h _ (.head _)
    rw [List.flatMap_cons]
    exact (ih fun entry hentry => h entry (.tail _ hentry)).emptyLine.section (name, fields) hname hfields

/-! Tables. -/

/-- The section that is read for a section that is written. -/
def sectionOf (entry : String × List (String × Plain)) : Section :=
  ⟨false, [], entry.1, entry.2.map fun field => ⟨[], field.1, field.2.toToml⟩⟩

theorem sections_entries (fields : List (String × Plain)) (lines : List Line) :
    sections (fields.map fieldLine ++ lines) =
      (fields.map (fun field => ⟨[], field.1, field.2.toToml⟩) ++ (sections lines).1, (sections lines).2) := by
  induction fields with
  | nil => rfl
  | cons field more ih =>
    rw [List.map_cons, List.cons_append, fieldLine, sections, ih]
    rfl

theorem sections_lines (written : List (String × List (String × Plain))) :
    sections (written.flatMap sectionLines) = ([], written.map sectionOf) := by
  induction written with
  | nil => rfl
  | cons entry more ih =>
    rw [List.flatMap_cons, sectionLines, List.cons_append, sections, sections_entries, ih]
    simp [sectionOf]

/-- A name that is not there yet comes last. -/
theorem set_new {fields : Fields} {node : Node} (h : name ∉ fields.map Prod.fst) :
    fields.set name node = fields ++ [(name, node)] := by
  unfold Fields.set
  rw [if_neg]
  simpa using h

theorem lookup_new {fields : Fields} (h : name ∉ fields.map Prod.fst) : fields.lookup name = none := by
  rw [List.lookup_eq_none_iff]
  intro field hfield
  rw [bne_iff_ne]
  rintro rfl
  exact h (List.mem_map_of_mem hfield)

theorem insertAll_append (before : Fields) (fields : List (String × Plain))
    (h : (before.map Prod.fst ++ fields.map Prod.fst).Nodup) :
    Fields.insertAll before (fields.map fun field => ⟨[], field.1, field.2.toToml⟩) =
      some (before ++ fields.map fun field => (field.1, .value field.2.toToml)) := by
  induction fields generalizing before with
  | nil => simp [Fields.insertAll]
  | cons field more ih =>
    have hnew : field.1 ∉ before.map Prod.fst := fun hmem =>
      (List.nodup_append.1 h).2.2 _ hmem _ (.head _) rfl
    have hinsert : Fields.insert field.1 field.2.toToml [] before =
        some (before ++ [(field.1, .value field.2.toToml)]) := by
      rw [Fields.insert, if_neg (by simpa using hnew), set_new hnew]
    have hnext := ih (before ++ [(field.1, .value field.2.toToml)]) (by simpa using h)
    rw [List.map_cons, Fields.insertAll, List.foldlM_cons]
    change (Fields.insert field.1 field.2.toToml [] before).bind _ = _
    rw [hinsert, Option.bind_some]
    change Fields.insertAll _ _ = _
    rw [hnext, List.map_cons, List.append_assoc, List.singleton_append]

/-- The node of a section that has been read. -/
def sectionNode (entry : String × List (String × Plain)) : String × Node :=
  (entry.1, .table .header (entry.2.map fun field => (field.1, .value field.2.toToml)))

theorem addTo_new {entry : String × List (String × Plain)} {before : Fields}
    (hnew : entry.1 ∉ before.map Prod.fst) (hfields : (entry.2.map Prod.fst).Nodup) :
    (sectionOf entry).addTo before = some (before ++ [sectionNode entry]) := by
  have hinsert := insertAll_append [] entry.2 (by simpa using hfields)
  unfold Section.addTo sectionOf
  rw [if_neg Bool.false_ne_true, lookup_new hnew]
  change (Fields.insertAll [] _).bind _ = _
  rw [hinsert]
  change some (before.set entry.1 _) = _
  rw [set_new hnew]
  rfl

theorem foldlM_addTo (written : List (String × List (String × Plain))) (before : Fields)
    (h : (before.map Prod.fst ++ written.map Prod.fst).Nodup)
    (hfields : ∀ entry ∈ written, (entry.2.map Prod.fst).Nodup) :
    (written.map sectionOf).foldlM (fun root s => root.descend s.addTo s.path) before =
      some (before ++ written.map sectionNode) := by
  induction written generalizing before with
  | nil => simp
  | cons entry more ih =>
    have hnew : entry.1 ∉ before.map Prod.fst := fun hmem =>
      (List.nodup_append.1 h).2.2 _ hmem _ (.head _) rfl
    have hadd := addTo_new hnew (hfields entry (.head _))
    have hnext := ih (before ++ [sectionNode entry]) (by simpa [sectionNode] using h)
      fun other hother => hfields other (.tail _ hother)
    rw [List.map_cons, List.foldlM_cons]
    change ((sectionOf entry).addTo before).bind _ = _
    rw [hadd, Option.bind_some]
    rw [hnext, List.map_cons, List.append_assoc, List.singleton_append]

/-- What is read back for sections that are written. -/
def tablesOf (written : List (String × List (String × Plain))) : List (String × Toml) :=
  written.map fun entry => (entry.1, .table (entry.2.map fun field => (field.1, field.2.toToml)))

theorem fieldsToToml_values (fields : List (String × Plain)) :
    fieldsToToml (fields.map fun field => (field.1, .value field.2.toToml)) =
      fields.map fun field => (field.1, field.2.toToml) := by
  induction fields with
  | nil => rfl
  | cons field more ih => rw [List.map_cons, fieldsToToml, ih, Node.toToml, List.map_cons]

theorem fieldsToToml_sections (written : List (String × List (String × Plain))) :
    fieldsToToml (written.map sectionNode) = tablesOf written := by
  induction written with
  | nil => rfl
  | cons entry more ih =>
    rw [List.map_cons, sectionNode, fieldsToToml, ih, Node.toToml, fieldsToToml_values]
    rfl

/-- No name stands twice where names are told apart. -/
def IsDistinct (written : List (String × List (String × Plain))) : Prop :=
  (written.map Prod.fst).Nodup ∧ ∀ entry ∈ written, (entry.2.map Prod.fst).Nodup

theorem dropMark_writeSections (written : List (String × List (String × Plain))) :
    dropMark (writeSections written) = writeSections written := by
  unfold writeSections
  split <;> rfl

/-- A document is read back as the table of its sections. -/
theorem read?_writeSections {written : List (String × List (String × Plain))} (h : IsWritable written)
    (hdistinct : IsDistinct written) :
    read? (writeSections written) = some (.table (tablesOf written)) := by
  have hlines := HasLines.written h _ (Nat.le_refl _)
  have htable : tableOf? [] (written.map sectionOf) = some (.table (tablesOf written)) := by
    have hfold := foldlM_addTo written [] (by simpa using hdistinct.1) hdistinct.2
    unfold tableOf?
    change ((written.map sectionOf).foldlM (fun root s => Fields.descend s.addTo s.path root) []).bind _ = _
    rw [hfold, List.nil_append, Option.bind_some, fieldsToToml_sections]
    rfl
  unfold read?
  dsimp only
  rw [dropMark_writeSections, hlines, Option.bind_eq_bind, Option.bind_some, sections_lines]
  exact htable

end ParseGoal.Toml
