import Mathlib.Data.List.Induction
import Mathlib.Tactic.Common
import ParseGoal.Text.Position

/-! Positions in a text, in view of what stands before and after it. -/
namespace ParseGoal.Position

@[simp] theorem advance_zero (line column : Nat) (text : List Char) :
    advance line column 0 text = (line, column) := by
  cases text <;> rfl

theorem advance_cons (line column : Nat) (c : Char) (text : List Char) {offset : Nat}
    (hpos : 0 < offset) : advance line column offset (c :: text) =
      if c = '\n' then advance (line + 1) 1 (offset - c.utf8Size) text
      else advance line (column + 1) (offset - c.utf8Size) text := by
  cases offset with
  | zero => contradiction
  | succ offset => rfl

theorem advance_append {line column offset : Nat} {pre : List Char}
    (h : offset ≤ Text.byteSize pre) (post : List Char) :
    advance line column offset (pre ++ post) = advance line column offset pre := by
  induction pre generalizing line column offset with
  | nil =>
    obtain rfl : offset = 0 := by simpa using h
    simp
  | cons c pre ih =>
    rcases Nat.eq_zero_or_pos offset with rfl | hpos
    · simp
    · have hle : offset - c.utf8Size ≤ Text.byteSize pre := by
        rw [Text.byteSize_cons] at h
        omega
      rw [List.cons_append, advance_cons _ _ _ _ hpos, advance_cons _ _ _ _ hpos, ih hle, ih hle]

theorem advance_add (line column offset : Nat) (pre post : List Char) :
    advance line column (Text.byteSize pre + offset) (pre ++ post) =
      advance (advance line column (Text.byteSize pre) pre).1
        (advance line column (Text.byteSize pre) pre).2 offset post := by
  induction pre generalizing line column with
  | nil => simp
  | cons c pre ih =>
    have hpos := c.utf8Size_pos
    have hsize : Text.byteSize (c :: pre) + offset - c.utf8Size = Text.byteSize pre + offset := by
      rw [Text.byteSize_cons]
      omega
    have hsize' : Text.byteSize (c :: pre) - c.utf8Size = Text.byteSize pre := by
      rw [Text.byteSize_cons]
      omega
    have hcons : 0 < Text.byteSize (c :: pre) := Nat.lt_of_lt_of_le hpos (Nat.le_add_right ..)
    rw [List.cons_append, advance_cons _ _ _ _ (Nat.lt_of_lt_of_le hcons (Nat.le_add_right ..)),
      advance_cons _ _ _ _ hcons, hsize, hsize']
    split
    · exact ih ..
    · exact ih ..

/-- Lines are counted from wherever the text starts. -/
theorem advance_line (line more column offset : Nat) (text : List Char) :
    advance (line + more) column offset text =
      ((advance line column offset text).1 + more, (advance line column offset text).2) := by
  induction text generalizing line column offset with
  | nil => rfl
  | cons c text ih =>
    rcases Nat.eq_zero_or_pos offset with rfl | hpos
    · simp
    · rw [advance_cons _ _ _ _ hpos, advance_cons _ _ _ _ hpos]
      split
      · rw [Nat.add_right_comm, ih]
      · rw [ih]

/-- Past whole lines, the column is the first. -/
theorem advance_lines (line column : Nat) (text : List Char) :
    advance line column (Text.byteSize (text ++ ['\n'])) (text ++ ['\n']) =
      (line + text.count '\n' + 1, 1) := by
  induction text generalizing line column with
  | nil => rfl
  | cons c text ih =>
    have hpos : 0 < Text.byteSize (c :: (text ++ ['\n'])) :=
      Nat.lt_of_lt_of_le c.utf8Size_pos (Nat.le_add_right ..)
    have hsize : Text.byteSize (c :: (text ++ ['\n'])) - c.utf8Size = Text.byteSize (text ++ ['\n']) := by
      rw [Text.byteSize_cons]
      omega
    rw [List.cons_append, advance_cons _ _ _ _ hpos, hsize]
    split
    · next h =>
      rw [ih, h, List.count_cons_self]
      congr 1
      omega
    · next h => rw [ih, List.count_cons_of_ne h]

/-- Past a text within a line, only the column has moved. -/
theorem advance_within (line column : Nat) {text : List Char} (h : '\n' ∉ text) :
    advance line column (Text.byteSize text) text = (line, column + text.length) := by
  induction text generalizing column with
  | nil => rfl
  | cons c text ih =>
    obtain ⟨hc, htext⟩ := List.ne_and_not_mem_of_not_mem_cons h
    have hpos : 0 < Text.byteSize (c :: text) :=
      Nat.lt_of_lt_of_le c.utf8Size_pos (Nat.le_add_right ..)
    have hsize : Text.byteSize (c :: text) - c.utf8Size = Text.byteSize text :=
      Nat.add_sub_cancel_left ..
    rw [advance_cons _ _ _ _ hpos, if_neg hc.symm, hsize, ih _ htext, List.length_cons]
    congr 1
    omega

theorem le_advance (line column offset : Nat) (text : List Char) :
    line ≤ (advance line column offset text).1 := by
  induction text generalizing line column offset with
  | nil => exact Nat.le_refl _
  | cons c text ih =>
    rcases Nat.eq_zero_or_pos offset with rfl | hpos
    · simp
    · rw [advance_cons _ _ _ _ hpos]
      split
      · exact Nat.le_of_succ_le (ih ..)
      · exact ih ..

/-- Lines and columns grow by no more than the characters passed. -/
theorem advance_le (line offset : Nat) {column : Nat} (hcolumn : 1 ≤ column) (text : List Char) :
    (advance line column offset text).1 ≤ line + text.length ∧
      (advance line column offset text).2 ≤ column + text.length := by
  induction text generalizing line column offset with
  | nil => exact ⟨Nat.le_refl _, Nat.le_refl _⟩
  | cons c text ih =>
    rcases Nat.eq_zero_or_pos offset with rfl | hpos
    · simp
    · rw [advance_cons _ _ _ _ hpos, List.length_cons]
      split
      · obtain ⟨hline, hnext⟩ := ih (line + 1) (offset - c.utf8Size) (Nat.le_refl 1)
        omega
      · obtain ⟨hline, hnext⟩ := ih line (offset - c.utf8Size) (show 1 ≤ column + 1 by omega)
        omega

/-- Columns are counted from wherever the first line starts, and later lines start all over. -/
theorem advance_column (line column more offset : Nat) (text : List Char) :
    advance line (column + more) offset text =
      ((advance line column offset text).1,
        if (advance line column offset text).1 = line then (advance line column offset text).2 + more
        else (advance line column offset text).2) := by
  induction text generalizing column offset with
  | nil => simp [advance]
  | cons c text ih =>
    rcases Nat.eq_zero_or_pos offset with rfl | hpos
    · simp
    · rw [advance_cons _ _ _ _ hpos, advance_cons _ _ _ _ hpos]
      split
      · have hline := le_advance (line + 1) 1 (offset - c.utf8Size) text
        rw [if_neg (by omega)]
      · rw [Nat.add_right_comm, ih]

/-- No count in a position exceeds the bytes of the text by more than one. -/
theorem ofOffset_le (text : List Char) (offset : Nat) :
    (ofOffset text offset).offset ≤ Text.byteSize text ∧
      (ofOffset text offset).line ≤ Text.byteSize text + 1 ∧
      (ofOffset text offset).column ≤ Text.byteSize text + 1 := by
  have hlength := Text.length_le_byteSize text
  obtain ⟨hline, hcolumn⟩ := advance_le 1 (min offset (Text.byteSize text)) (Nat.le_refl 1) text
  refine ⟨Nat.min_le_right .., Nat.le_trans hline ?_, Nat.le_trans hcolumn ?_⟩ <;> omega

/-- What follows a text changes no position in it. -/
theorem ofOffset_append {pre : List Char} {offset : Nat} (h : offset ≤ Text.byteSize pre)
    (post : List Char) : ofOffset (pre ++ post) offset = ofOffset pre offset := by
  have hle : offset ≤ Text.byteSize (pre ++ post) := by
    rw [Text.byteSize_append]
    omega
  rw [ofOffset, ofOffset, Nat.min_eq_left h, Nat.min_eq_left hle]
  dsimp only
  rw [advance_append h]

theorem offset_ofOffset {text : List Char} {offset : Nat} (h : offset ≤ Text.byteSize text) :
    (ofOffset text offset).offset = offset :=
  Nat.min_eq_left h

/-- What stands after the last line feed of a text. -/
def lastLine (text : List Char) : List Char := (text.reverse.takeWhile (· != '\n')).reverse

theorem lastLine_concat (text : List Char) (c : Char) :
    lastLine (text ++ [c]) = if c = '\n' then [] else lastLine text ++ [c] := by
  by_cases hc : c = '\n' <;> simp [lastLine, hc]

theorem advance_whole (text : List Char) :
    advance 1 1 (Text.byteSize text) text = (1 + text.count '\n', 1 + (lastLine text).length) := by
  induction text using List.reverseRecOn with
  | nil => rfl
  | append_singleton text c ih =>
    have hlast (line column : Nat) : advance line column c.utf8Size [c] =
        if c = '\n' then (line + 1, 1) else (line, column + 1) := by
      rw [advance_cons _ _ _ _ c.utf8Size_pos]
      split <;> rfl
    rw [Text.byteSize_append, Text.byteSize_cons, Text.byteSize_nil, Nat.add_zero, advance_add, ih, hlast,
      lastLine_concat, List.count_append]
    by_cases hc : c = '\n'
    · simp [hc, Nat.add_assoc]
    · simp [hc, Nat.add_assoc]

/-- The place behind some text: its lines are counted, and the characters of its last line. -/
theorem ofOffset_byteSize (before after : List Char) :
    ofOffset (before ++ after) (Text.byteSize before) =
      ⟨1 + before.count '\n', 1 + (lastLine before).length, Text.byteSize before⟩ := by
  rw [ofOffset_append (Nat.le_refl _), ofOffset, Nat.min_self]
  dsimp only
  rw [advance_whole]

/-- The place after so many whole lines, which take so many bytes. -/
def below (p : Position) (lines bytes : Nat) : Position :=
  ⟨p.line + lines, p.column, p.offset + bytes⟩

/-- Whole lines before a text move its positions down. -/
theorem ofOffset_lines (pre post : List Char) (offset : Nat) :
    ofOffset (pre ++ '\n' :: post) (offset + Text.byteSize (pre ++ ['\n'])) =
      (ofOffset post offset).below (pre.count '\n' + 1) (Text.byteSize (pre ++ ['\n'])) := by
  have hsplit : pre ++ '\n' :: post = (pre ++ ['\n']) ++ post := by simp
  have hmin : min (offset + Text.byteSize (pre ++ ['\n'])) (Text.byteSize (pre ++ '\n' :: post)) =
      Text.byteSize (pre ++ ['\n']) + min offset (Text.byteSize post) := by
    rw [hsplit, Text.byteSize_append _ post]
    omega
  rw [ofOffset, ofOffset, hmin, hsplit]
  dsimp only
  rw [advance_add, advance_lines, Nat.add_assoc, advance_line]
  simp only [below, Nat.add_comm]

/--
Where a place comes to be when text goes in at `spot`: so many characters, which take so many bytes
and end no line.
-/
def pushed (p spot : Position) (columns bytes : Nat) : Position :=
  if p.offset < spot.offset then p
  else ⟨p.line, if p.line = spot.line then p.column + columns else p.column, p.offset + bytes⟩

/-- Text within a line pushes on what stands behind it. -/
theorem ofOffset_insert {pre more post : List Char} (h : '\n' ∉ more) {offset : Nat}
    (hoffset : offset ≤ Text.byteSize (pre ++ post)) :
    ofOffset (pre ++ (more ++ post))
        (if offset < Text.byteSize pre then offset else offset + Text.byteSize more) =
      (ofOffset (pre ++ post) offset).pushed (ofOffset (pre ++ post) (Text.byteSize pre))
        more.length (Text.byteSize more) := by
  have hspot : ofOffset (pre ++ post) (Text.byteSize pre) = ofOffset pre (Text.byteSize pre) :=
    ofOffset_append (Nat.le_refl _) post
  rw [hspot, pushed, offset_ofOffset hoffset, offset_ofOffset (Nat.le_refl _)]
  by_cases hlt : offset < Text.byteSize pre
  · rw [if_pos hlt, if_pos hlt, ofOffset_append (Nat.le_of_lt hlt),
      ofOffset_append (Nat.le_of_lt hlt)]
  · obtain ⟨rest, rfl⟩ := Nat.exists_eq_add_of_le (Nat.le_of_not_lt hlt)
    have hmin : min (Text.byteSize pre + rest + Text.byteSize more)
        (Text.byteSize (pre ++ (more ++ post))) =
          Text.byteSize pre + (Text.byteSize more + rest) := by
      simp only [Text.byteSize_append] at hoffset ⊢
      omega
    rw [if_neg hlt, if_neg hlt, ofOffset, ofOffset, ofOffset, hmin, Nat.min_eq_left hoffset,
      Nat.min_self]
    dsimp only
    rw [advance_add, advance_add, advance_within _ _ h, advance_column, advance_add]
    simp only [Position.mk.injEq, true_and]
    omega

end ParseGoal.Position
