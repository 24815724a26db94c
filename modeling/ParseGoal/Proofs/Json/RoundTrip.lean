import ParseGoal.Proofs.Json.Tokens

/-! Reading gives back every plain value that was written, in either layout. -/
namespace ParseGoal.Json

variable {rest : List Char}

theorem endsNumber_cons {c : Char} (hdigit : c.isDigit = false)
    (h : c ≠ '.' ∧ c ≠ 'e' ∧ c ≠ 'E') : EndsNumber (c :: rest) := by
  constructor
  · intro d hd
    cases hd
    exact hdigit
  · intro d hd
    cases hd
    exact h

theorem endsNumber_nil : EndsNumber [] := ⟨nofun, nofun⟩

theorem endsNumber_lead (layout : Layout) (h : EndsNumber rest) :
    EndsNumber (layout.lead ++ rest) := by
  cases layout with
  | line => exact h
  | lines depth => exact endsNumber_cons (c := '\n') (by decide) (by decide)

theorem endsNumber_writeItems (layout : Layout) (items : List Json) (h : EndsNumber rest) :
    EndsNumber (writeItems layout items ++ rest) := by
  cases items with
  | nil => exact h
  | cons item more =>
    rw [writeItems]
    exact endsNumber_cons (by decide) (by decide)

theorem endsNumber_writeFields (layout : Layout) (fields : List (Option String × Json))
    (h : EndsNumber rest) : EndsNumber (writeFields layout fields ++ rest) := by
  cases fields with
  | nil => exact h
  | cons field more =>
    rw [writeFields]
    exact endsNumber_cons (by decide) (by decide)

mutual

theorem tokens?_write (layout : Layout) (value : Json) (h : value.IsPlain) {rest : List Char}
    (hrest : EndsNumber rest) :
    tokens? (write layout value ++ rest) = (tokens? rest).map (tokens value ++ ·) := by
  match value, h with
  | .null, _ => exact tokens?_long (c := 'n') rfl rfl rfl
  | .bool true, _ => exact tokens?_long (c := 't') rfl rfl rfl
  | .bool false, _ => exact tokens?_long (c := 'f') rfl rfl rfl
  | .number n, h =>
    obtain ⟨k, rfl⟩ := h
    exact tokens?_number k hrest
  | .string text, h => exact tokens?_quoteText h rest
  | .array [], _ =>
    rw [write, List.cons_append, tokens?_punctuation (c := '[') rfl]
    rw [List.cons_append, List.nil_append, tokens?_punctuation (c := ']') rfl, Option.map_map]
    rfl
  | .array (item :: more), h =>
    have hclose : EndsNumber (layout.lead ++ (']' :: rest)) :=
      endsNumber_lead layout (endsNumber_cons (by decide) (by decide))
    rw [write, List.cons_append, tokens?_punctuation (c := '[') rfl]
    simp only [List.append_assoc, List.cons_append, List.nil_append]
    rw [tokens?_lead, tokens?_write layout.inner item h.1 (endsNumber_writeItems _ _ hclose),
      tokens?_writeItems layout.inner more h.2 hclose, tokens?_lead,
      tokens?_punctuation (c := ']') rfl]
    simp only [Option.map_map]
    congr 1
    funext found
    simp [tokens]
  | .object [], _ =>
    rw [write, List.cons_append, tokens?_punctuation (c := '{') rfl]
    rw [List.cons_append, List.nil_append, tokens?_punctuation (c := '}') rfl, Option.map_map]
    rfl
  | .object ((name, value) :: more), h =>
    have hclose : EndsNumber (layout.lead ++ ('}' :: rest)) :=
      endsNumber_lead layout (endsNumber_cons (by decide) (by decide))
    rw [write, List.cons_append, tokens?_punctuation (c := '{') rfl]
    simp only [List.append_assoc, List.cons_append, List.nil_append]
    rw [tokens?_lead, tokens?_quoteText h.1, tokens?_colon,
      tokens?_write layout.inner value h.2.1 (endsNumber_writeFields _ _ hclose),
      tokens?_writeFields layout.inner more h.2.2 hclose, tokens?_lead,
      tokens?_punctuation (c := '}') rfl]
    simp only [Option.map_map]
    congr 1
    funext found
    simp [tokens]

theorem tokens?_writeItems (layout : Layout) (items : List Json) (h : ArePlain items)
    {rest : List Char} (hrest : EndsNumber rest) :
    tokens? (writeItems layout items ++ rest) = (tokens? rest).map (itemTokens items ++ ·) := by
  match items, h with
  | [], _ => simp [writeItems, itemTokens]
  | item :: more, h =>
    rw [writeItems, List.cons_append, tokens?_punctuation (c := ',') rfl]
    simp only [List.append_assoc]
    rw [tokens?_lead, tokens?_write layout item h.1 (endsNumber_writeItems _ _ hrest),
      tokens?_writeItems layout more h.2 hrest]
    simp only [Option.map_map]
    congr 1
    funext found
    simp [itemTokens]

theorem tokens?_writeFields (layout : Layout) (fields : List (Option String × Json))
    (h : FieldsPlain fields) {rest : List Char} (hrest : EndsNumber rest) :
    tokens? (writeFields layout fields ++ rest) = (tokens? rest).map (fieldTokens fields ++ ·) := by
  match fields, h with
  | [], _ => simp [writeFields, fieldTokens]
  | (name, value) :: more, h =>
    rw [writeFields, List.cons_append, tokens?_punctuation (c := ',') rfl]
    simp only [List.append_assoc]
    rw [tokens?_lead, tokens?_quoteText h.1, tokens?_colon,
      tokens?_write layout value h.2.1 (endsNumber_writeFields _ _ hrest),
      tokens?_writeFields layout more h.2.2 hrest]
    simp only [Option.map_map]
    congr 1
    funext found
    simp [fieldTokens]

end

namespace Reading

/-- A value never starts with the token that ends an array. -/
theorem tokens_ne_rightBracket (value : Json) :
    ∃ token rest, tokens value = token :: rest ∧ token ≠ .rightBracket := by
  match value with
  | .null => exact ⟨.null, [], rfl, nofun⟩
  | .bool b => exact ⟨.bool b, [], rfl, nofun⟩
  | .number n => exact ⟨.number n, [], rfl, nofun⟩
  | .string text => exact ⟨.string text, [], rfl, nofun⟩
  | .array [] => exact ⟨.leftBracket, _, rfl, nofun⟩
  | .array (_ :: _) => exact ⟨.leftBracket, _, rfl, nofun⟩
  | .object [] => exact ⟨.leftBrace, _, rfl, nofun⟩
  | .object (_ :: _) => exact ⟨.leftBrace, _, rfl, nofun⟩

/-- Takes in one token after another. -/
def steps (r : Reading) (tokens : List Token) : Option Reading := tokens.foldlM step r

theorem steps_cons {r s : Reading} {token : Token} (h : r.step token = some s)
    (tokens : List Token) : r.steps (token :: tokens) = s.steps tokens := by
  rw [steps, List.foldlM_cons, h]
  rfl

/-- The first item of an array is read as any other value. -/
theorem steps_valueOrEnd (value : Json) (containers : List Container) (after : List Token) :
    steps ⟨.valueOrEnd, containers⟩ (tokens value ++ after) =
      steps ⟨.value, containers⟩ (tokens value ++ after) := by
  obtain ⟨token, rest, heq, hne⟩ := tokens_ne_rightBracket value
  have hstep : step ⟨.valueOrEnd, containers⟩ token = step ⟨.value, containers⟩ token := if_neg hne
  rw [heq, List.cons_append, steps, List.foldlM_cons, hstep]
  rfl

mutual

theorem steps_tokens (value : Json) (containers : List Container) (after : List Token) :
    steps ⟨.value, containers⟩ (tokens value ++ after) =
      steps (settle value containers) after := by
  match value with
  | .null => exact steps_cons rfl after
  | .bool b => exact steps_cons rfl after
  | .number n => exact steps_cons rfl after
  | .string text => exact steps_cons rfl after
  | .array [] =>
    exact (steps_cons (s := ⟨.valueOrEnd, .array [] :: containers⟩) rfl _).trans (steps_cons rfl after)
  | .array (item :: more) =>
    rw [tokens]
    simp only [List.cons_append, List.append_assoc, List.nil_append]
    rw [steps_cons (s := ⟨.valueOrEnd, .array [] :: containers⟩) rfl, steps_valueOrEnd,
      steps_tokens item]
    exact steps_itemTokens more [item] containers after
  | .object [] =>
    exact (steps_cons (s := ⟨.nameOrEnd, .object [] none :: containers⟩) rfl _).trans
      (steps_cons rfl after)
  | .object ((name, value) :: more) =>
    rw [tokens]
    simp only [List.cons_append, List.append_assoc, List.nil_append]
    rw [steps_cons (s := ⟨.nameOrEnd, .object [] none :: containers⟩) rfl,
      steps_cons (s := ⟨.colon, .object [] name :: containers⟩) rfl,
      steps_cons (s := ⟨.value, .object [] name :: containers⟩) rfl, steps_tokens value]
    exact steps_fieldTokens more [(name, value)] name containers after

theorem steps_itemTokens (items held : List Json) (outer : List Container) (after : List Token) :
    steps ⟨.more, .array held :: outer⟩ (itemTokens items ++ .rightBracket :: after) =
      steps (settle (.array (held.reverse ++ items)) outer) after := by
  match items with
  | [] =>
    rw [itemTokens, List.nil_append, List.append_nil]
    exact steps_cons rfl after
  | item :: more =>
    rw [itemTokens]
    simp only [List.cons_append, List.append_assoc]
    rw [steps_cons (s := ⟨.value, .array held :: outer⟩) rfl, steps_tokens item]
    refine (steps_itemTokens more (item :: held) outer after).trans ?_
    rw [List.reverse_cons, List.append_assoc]
    rfl

theorem steps_fieldTokens (fields held : List (Option String × Json)) (name : Option String)
    (outer : List Container) (after : List Token) :
    steps ⟨.more, .object held name :: outer⟩ (fieldTokens fields ++ .rightBrace :: after) =
      steps (settle (.object (held.reverse ++ fields)) outer) after := by
  match fields with
  | [] =>
    rw [fieldTokens, List.nil_append, List.append_nil]
    exact steps_cons rfl after
  | (next, value) :: more =>
    rw [fieldTokens]
    simp only [List.cons_append, List.append_assoc]
    rw [steps_cons (s := ⟨.name, .object held name :: outer⟩) rfl,
      steps_cons (s := ⟨.colon, .object held next :: outer⟩) rfl,
      steps_cons (s := ⟨.value, .object held next :: outer⟩) rfl, steps_tokens value]
    refine (steps_fieldTokens more ((next, value) :: held) next outer after).trans ?_
    rw [List.reverse_cons, List.append_assoc]
    rfl

end

end Reading

theorem ofTokens?_tokens (value : Json) : ofTokens? (tokens value) = some value := by
  have hsteps := Reading.steps_tokens value [] []
  rw [List.append_nil] at hsteps
  change (Reading.steps ⟨.value, []⟩ (tokens value)).bind Reading.value? = _
  rw [hsteps]
  rfl

theorem read?_write (layout : Layout) (value : Json) (h : value.IsPlain) :
    read? (write layout value) = some value := by
  have htokens := tokens?_write layout value h endsNumber_nil
  rw [List.append_nil] at htokens
  have hnil : tokens? [] = some [] := by rw [tokens?]
  rw [read?, htokens, hnil, Option.map_some, List.append_nil, Option.bind_some, ofTokens?_tokens]

theorem read?_pretty (value : Json) (h : value.IsPlain) : read? value.pretty.toList = some value := by
  rw [pretty, String.toList_ofList]
  exact read?_write _ value h

end ParseGoal.Json
