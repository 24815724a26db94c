import ParseGoal.Proofs.Text.Digits
import ParseGoal.Proofs.Toml.Quoted

/-! The values that are written are read back: numbers up to the largest one, truth values, texts. -/
namespace ParseGoal.Toml

variable {c : Char} {text rest : List Char}

/-- What is read back for a value that is written. -/
def Plain.toToml : Plain → Toml
  | .text s => .string s
  | .number n => .integer n
  | .flag b => .bool b
  | .texts items => .array (items.map .string)

/-- A number is writable if it is an integer of 64 bits. -/
def Plain.IsWritable : Plain → Prop
  | .number n => n ≤ 9223372036854775807
  | _ => True

theorem isBlank_of_isDigit (h : c.isDigit = true) : isBlank c = false := by
  by_contra hblank
  rcases Bool.or_eq_true_iff.1 (Bool.of_not_eq_false hblank) with hc | hc <;>
  · rw [beq_iff_eq.1 hc] at h
    cases h

/-! Numbers. -/

section Number

variable {digits : List Char} (hdigits : ∀ c ∈ digits, c.isDigit = true)

include hdigits

theorem moreDigits?_line :
    moreDigits? Char.isDigit (digits ++ '\n' :: rest) = some (digits, '\n' :: rest) := by
  induction digits with
  | nil => rfl
  | cons d more ih =>
    have hd : d.isDigit = true := hdigits d (.head _)
    rw [List.cons_append, moreDigits?]
    · rw [if_pos hd, ih fun e he => hdigits e (.tail _ he)]
      rfl
    · rintro e later rfl
      exact absurd hd (by decide)

theorem mark?_of_fixed? {count least most n : Nat} {mark : Char} {after : List Char}
    (hmark : mark.isDigit = false ∧ mark ≠ '\n')
    (h : fixed? count least most (digits ++ '\n' :: rest) = some (n, after)) : mark? mark after = none := by
  unfold fixed? at h
  dsimp only at h
  split_ifs at h with hfixed
  cases h
  have hle : count ≤ digits.length := by
    by_contra hlt
    have hmem : '\n' ∈ (digits ++ '\n' :: rest).take count := by
      obtain ⟨extra, hextra⟩ := Nat.exists_eq_add_of_lt (Nat.lt_of_not_le hlt)
      rw [List.take_append, show count - digits.length = extra + 1 by omega, List.take_succ_cons]
      exact List.mem_append_right _ (.head _)
    exact absurd (List.all_eq_true.1 hfixed.2.1 _ hmem) (by decide)
  rw [List.drop_append_of_le_length hle]
  cases hdrop : digits.drop count with
  | nil => exact if_neg (Ne.symm hmark.2)
  | cons d more =>
    have hd : d.isDigit = true := hdigits d (List.mem_of_mem_drop (i := count) (by simp [hdrop]))
    refine if_neg ?_
    rintro rfl
    rw [hd] at hmark
    exact absurd hmark.1 (by decide)

/-- A date or a time has another mark after its first digits. -/
theorem dateTime?_line : dateTime? (digits ++ '\n' :: rest) = none := by
  have hdate : date? (digits ++ '\n' :: rest) = none := by
    unfold date?
    cases hyear : fixed? 4 0 9999 (digits ++ '\n' :: rest) with
    | none => rfl
    | some year =>
      have hmark : mark? '-' year.2 = none := mark?_of_fixed? hdigits (by decide) hyear
      simp [hmark]
  have htime : time? (digits ++ '\n' :: rest) = none := by
    unfold time?
    cases hhour : fixed? 2 0 23 (digits ++ '\n' :: rest) with
    | none => rfl
    | some hour =>
      have hmark : mark? ':' hour.2 = none := mark?_of_fixed? hdigits (by decide) hhour
      simp [hmark]
  rw [dateTime?, hdate, htime]
  rfl

end Number

theorem toDigits_cons (n : Nat) : ∃ c more, Nat.toDigits 10 n = c :: more ∧ c.isDigit = true := by
  obtain ⟨c, more, h⟩ := List.exists_cons_of_ne_nil (Nat.toDigits_ne_nil (b := 10) (n := n))
  exact ⟨c, more, h, Text.isDigit_of_mem_toDigits (n := n) (by simp [h])⟩

theorem whole?_toDigits (n : Nat) :
    whole? (Nat.toDigits 10 n ++ '\n' :: rest) = some (Nat.toDigits 10 n, '\n' :: rest) := by
  obtain ⟨c, more, hdigits, hc⟩ := toDigits_cons n
  by_cases hzero : c = '0'
  · subst hzero
    rw [Text.toDigits_head hdigits]
    rfl
  · have hmore : ∀ d ∈ more, d.isDigit = true := fun d hd =>
      Text.isDigit_of_mem_toDigits (n := n) (by simp [hdigits, hd])
    rw [hdigits, List.cons_append, whole?]
    · rw [digits?, if_pos hc, moreDigits?_line hmore]
      rfl
    · rintro later heq
      exact hzero (List.cons.inj heq).1

theorem plainDecimal?_toDigits {n : Nat} (h : n ≤ 9223372036854775807) :
    plainDecimal? false (Nat.toDigits 10 n ++ '\n' :: rest) = some (.integer n, '\n' :: rest) := by
  have hinteger : integer? n = some (.integer n) := if_pos ⟨by omega, by omega⟩
  unfold plainDecimal?
  rw [whole?_toDigits]
  change (integer? (Text.digitsValue (Nat.toDigits 10 n))).bind _ = _
  rw [Text.digitsValue_toDigits, hinteger]
  rfl

theorem number?_toDigits {n : Nat} (h : n ≤ 9223372036854775807) :
    number? (Nat.toDigits 10 n ++ '\n' :: rest) = some (.integer n, '\n' :: rest) := by
  have hplain : plainDecimal? false (Nat.toDigits 10 n ++ '\n' :: rest) = _ := plainDecimal?_toDigits h
  obtain ⟨c, more, hdigits, hc⟩ := toDigits_cons n
  by_cases hzero : c = '0'
  · subst hzero
    obtain rfl : n = 0 := Text.toDigits_head hdigits
    exact hplain
  · have hne {d : Char} (hd : d.isDigit = false) : c ≠ d := by
      rintro rfl
      exact absurd hc (by simp [hd])
    rw [hdigits, List.cons_append] at hplain ⊢
    unfold number?
    split
    case h_6 =>
      unfold decimal?
      split
      case h_3 => exact hplain
      all_goals next heq => exact absurd (List.cons.inj heq).1 (hne (by decide))
    all_goals next heq => exact absurd (List.cons.inj heq).1 (by first | exact hzero | exact hne (by decide))

/-! Values that start with a given character. -/

theorem value?_scalar (depth : Nat) (h : c ≠ '[' ∧ c ≠ '\x7b') :
    value? depth (c :: rest) = scalar? (c :: rest) := by
  cases depth with
  | zero => rfl
  | succ depth =>
    rw [value?]
    · exact fun more heq => h.1 (List.cons.inj heq).1
    · exact fun more heq => h.2 (List.cons.inj heq).1

theorem value?_toDigits {n : Nat} (depth : Nat) (h : n ≤ 9223372036854775807) :
    value? depth (Nat.toDigits 10 n ++ '\n' :: rest) = some (.integer n, '\n' :: rest) := by
  have hnumber : number? (Nat.toDigits 10 n ++ '\n' :: rest) = _ := number?_toDigits h
  have hdate : dateTime? (Nat.toDigits 10 n ++ '\n' :: rest) = none :=
    dateTime?_line fun c hc => Text.isDigit_of_mem_toDigits hc
  obtain ⟨c, more, hdigits, hc⟩ := toDigits_cons n
  have hne {d : Char} (hd : d.isDigit = false) : c ≠ d := by
    rintro rfl
    exact absurd hc (by simp [hd])
  rw [hdigits, List.cons_append] at hnumber hdate ⊢
  rw [value?_scalar depth ⟨hne (by decide), hne (by decide)⟩]
  unfold scalar?
  dsimp only
  rw [if_neg (not_or_intro (hne (by decide)) (hne (by decide))), if_neg (hne (by decide)),
    if_neg (hne (by decide)), if_pos (.inl hc), hdate, hnumber]
  rfl

theorem quote_cons (text : List Char) : ∃ q body, quote text = q :: body ∧ (q = '"' ∨ q = '\'') := by
  unfold quote
  dsimp only
  split
  · exact ⟨_, _, rfl, .inl rfl⟩
  · exact ⟨_, _, rfl, .inr rfl⟩
  · exact ⟨_, _, rfl, .inl rfl⟩
  · exact ⟨_, _, rfl, .inr rfl⟩

theorem value?_quote (depth : Nat) (s : String) (hrest : EndsString rest) :
    value? depth (quote s.toList ++ rest) = some (.string s, rest) := by
  have hstring := string?_quote s.toList hrest
  obtain ⟨q, body, hquote, hq⟩ := quote_cons s.toList
  rw [hquote, List.cons_append] at hstring ⊢
  have hscalar : q ≠ '[' ∧ q ≠ '\x7b' := by
    rcases hq with rfl | rfl <;> decide
  rw [value?_scalar depth hscalar]
  unfold scalar?
  dsimp only
  rw [if_pos hq, hstring, Option.map_some, String.ofList_toList]

theorem endsString_cons (h : c ≠ '"' ∧ c ≠ '\'') : EndsString (c :: rest) :=
  ⟨startsWithout_cons h.1, startsWithout_cons h.2⟩

/-! Arrays of texts. -/

theorem skipLines_quote (text rest : List Char) :
    skipLines false (quote text ++ rest) = quote text ++ rest := by
  obtain ⟨q, body, hquote, hq⟩ := quote_cons text
  rw [hquote, List.cons_append]
  rcases hq with rfl | rfl <;> rfl

/-- One item of several, on a line of its own. -/
def itemLine (item : String) : List Char := "    ".toList ++ quote item.toList ++ [',', '\n']

section Items

variable {depth fuel : Nat} {item : String}

theorem quote_ne_bracket (text rest more : List Char) : quote text ++ rest ≠ ']' :: more := by
  obtain ⟨q, body, hquote, hq⟩ := quote_cons text
  rw [hquote, List.cons_append]
  rintro heq
  rw [(List.cons.inj heq).1] at hq
  revert hq
  decide

theorem itemsAfter?_comma (h : skipLines false text = quote item.toList ++ ',' :: rest) :
    itemsAfter? (value? depth) (fuel + 1) text =
      (itemsAfter? (value? depth) fuel rest).map fun p => (.string item :: p.1, p.2) := by
  rw [itemsAfter?, h]
  split
  · next heq => exact absurd heq (quote_ne_bracket _ _ _)
  · rw [value?_quote depth item (endsString_cons (by decide))]
    change (itemsAfter? (value? depth) fuel rest).bind _ = _
    cases itemsAfter? (value? depth) fuel rest <;> rfl

theorem itemsAfter?_bracket (h : skipLines false text = quote item.toList ++ ']' :: rest) :
    itemsAfter? (value? depth) (fuel + 1) text = some ([.string item], rest) := by
  rw [itemsAfter?, h]
  split
  · next heq => exact absurd heq (quote_ne_bracket _ _ _)
  · rw [value?_quote depth item (endsString_cons (by decide))]
    rfl

end Items

/-- The line end before an item belongs to the item before it, or to the bracket. -/
theorem itemsAfter?_itemLines (depth : Nat) (items : List String) {fuel : Nat}
    (hfuel : items.length < fuel) :
    itemsAfter? (value? depth) fuel ('\n' :: (items.flatMap itemLine ++ ']' :: rest)) =
      some (items.map .string, rest) := by
  induction items generalizing fuel with
  | nil =>
    obtain ⟨fuel, rfl⟩ := Nat.exists_eq_add_one.2 hfuel
    rfl
  | cons item more ih =>
    rw [List.length_cons] at hfuel
    obtain ⟨fuel, rfl⟩ := Nat.exists_eq_add_one.2 (Nat.zero_lt_of_lt hfuel)
    have hitem : (item :: more).flatMap itemLine ++ ']' :: rest =
        ' ' :: ' ' :: ' ' :: ' ' :: (quote item.toList ++
          ',' :: '\n' :: (more.flatMap itemLine ++ ']' :: rest)) := by
      simp [List.flatMap_cons, itemLine]
    have hskip : skipLines false ('\n' :: ((item :: more).flatMap itemLine ++ ']' :: rest)) =
        quote item.toList ++ ',' :: '\n' :: (more.flatMap itemLine ++ ']' :: rest) := by
      rw [hitem]
      exact skipLines_quote _ _
    rw [itemsAfter?_comma hskip, ih (by omega)]
    rfl

theorem length_le_flatMap_itemLine (items : List String) :
    items.length ≤ (items.flatMap itemLine).length := by
  induction items with
  | nil => exact Nat.le_refl 0
  | cons item more ih =>
    have hline : 1 ≤ (itemLine item).length := by simp [itemLine]
    rw [List.flatMap_cons, List.length_append, List.length_cons]
    omega

theorem value?_writeTexts (depth : Nat) (items : List String) :
    value? (depth + 1) (writeTexts items ++ rest) = some (.array (items.map .string), rest) := by
  unfold writeTexts
  split
  · rfl
  · next item =>
    rw [List.cons_append, List.append_assoc, List.singleton_append, value?, List.length_cons,
      itemsAfter?_bracket (skipLines_quote _ _)]
    rfl
  · change value? (depth + 1) ('[' :: '\n' :: (items.flatMap itemLine ++ [']'] ++ rest)) = _
    rw [List.append_assoc, value?, List.singleton_append, itemsAfter?_itemLines depth]
    · rfl
    · have hle := length_le_flatMap_itemLine items
      simp only [List.length_cons, List.length_append]
      omega

/-- A value is read back up to the end of its line. -/
theorem value?_write (depth : Nat) {value : Plain} (h : value.IsWritable) :
    value? (depth + 1) (value.write ++ '\n' :: rest) = some (value.toToml, '\n' :: rest) := by
  cases value with
  | text s => exact value?_quote _ s (endsString_cons (by decide))
  | number n => exact value?_toDigits _ h
  | flag b => cases b <;> rfl
  | texts items => exact value?_writeTexts depth items

end ParseGoal.Toml
