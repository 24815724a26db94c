import ParseGoal.Proofs.Order
import ParseGoal.Proofs.Toml.Document
import ParseGoal.Settings.Text

/-! Settings are read back from the text that is written for them. -/
namespace ParseGoal

namespace Settings

variable {s : Settings}

/-- The order names no goal twice. -/
def NamesOnce (s : Settings) : Prop := s.policy.order.Nodup

/-- Both numbers are integers of 64 bits. -/
def HasSmallNumbers (s : Settings) : Prop := s.policy.timeLimit.toNat < 2 ^ 63 ∧ s.policy.jobs.toNat < 2 ^ 63

theorem goalOrder_ok (h : s.NamesOnce) : ∃ order, s.goalOrder = .ok order := by
  have hnone : Order.firstRepeat? [] s.policy.order = none := Order.firstRepeat?_eq_none_iff.2 ⟨h, by simp⟩
  unfold goalOrder GoalOrder.ofPreferred Order.ofPreferred
  rw [hnone]
  exact ⟨_, rfl⟩

theorem text_ok (h : s.HasSmallNumbers) : s.text = .ok (String.ofList (Toml.writeSections s.sections)) := by
  unfold text isWritable
  rw [if_pos]
  obtain ⟨htime, hjobs⟩ := h
  rw [Bool.and_eq_true, decide_eq_true_eq, decide_eq_true_eq]
  omega

theorem text_error (h : ¬ s.HasSmallNumbers) : s.text = .error (.tomlSerialize "a number is out of range") := by
  unfold text isWritable
  rw [if_neg]
  unfold HasSmallNumbers at h
  rw [Bool.and_eq_true, decide_eq_true_eq, decide_eq_true_eq]
  omega

theorem isWritable_sections (h : s.HasSmallNumbers) : Toml.IsWritable s.sections := by
  have htime : s.policy.timeLimit.toNat ≤ 9223372036854775807 := Nat.le_of_lt_succ h.1
  have hjobs : s.policy.jobs.toNat ≤ 9223372036854775807 := Nat.le_of_lt_succ h.2
  have hnames : ∀ name ∈ ["general", "resolver", "cache", "manifest", "log_format", "order",
      "parse_timeout_ms", "jobs", "enabled", "dir", "file_name", "field", "extensions"],
      Toml.isBareName name = true := by decide
  simp only [List.mem_cons, List.not_mem_nil, or_false, forall_eq_or_imp, forall_eq] at hnames
  unfold Toml.IsWritable sections
  cases s.caching.directory <;>
    simp only [List.mem_cons, List.not_mem_nil, or_false, forall_eq_or_imp, forall_eq, Option.map_none,
      Option.map_some, Option.toList, Toml.Plain.IsWritable, and_true, hnames, htime, hjobs]

theorem isDistinct_sections (s : Settings) : Toml.IsDistinct s.sections := by
  unfold Toml.IsDistinct sections
  cases s.caching.directory <;> simp

theorem goalsOfToml?_names (goals : List Goal) :
    goalsOfToml? (.array ((goals.map Goal.name).map .string)) = some goals := by
  change ((goals.map Goal.name).map Toml.string).mapM goalOfToml? = some goals
  induction goals with
  | nil => rfl
  | cons goal rest ih =>
    have hgoal : goalOfToml? (.string goal.name) = some goal := Goal.ofName?_name goal
    rw [List.map_cons, List.map_cons, List.mapM_cons, ih, hgoal]
    rfl

theorem wordOfToml?_toNat (n : UInt64) : wordOfToml? (.integer n.toNat) = some n := by
  have hnat : (Toml.integer n.toNat).nat? = some n.toNat := by simp [Toml.nat?]
  rw [wordOfToml?, hnat, Option.map_some, UInt64.ofNat_toNat]

section Sections

variable (s : Settings)

theorem generalOfToml?_section :
    generalOfToml? (.table [("log_format", .string s.general.logFormat)]) = some s.general := rfl

theorem policyOfToml?_section : policyOfToml? (.table [
    ("order", .array ((s.policy.order.map Goal.name).map .string)),
    ("parse_timeout_ms", .integer s.policy.timeLimit.toNat),
    ("jobs", .integer s.policy.jobs.toNat)]) = some s.policy := by
  have horder := goalsOfToml?_names s.policy.order
  have htime := wordOfToml?_toNat s.policy.timeLimit
  have hjobs := wordOfToml?_toNat s.policy.jobs
  change (goalsOfToml? _).bind _ = _
  rw [horder, Option.bind_some]
  change (wordOfToml? _).bind _ = _
  rw [htime, Option.bind_some]
  change (wordOfToml? _).bind _ = _
  rw [hjobs]
  rfl

theorem cachingOfToml?_section : cachingOfToml? (.table (("enabled", .bool s.caching.enabled) ::
    (s.caching.directory.map fun directory => ("dir", Toml.string directory)).toList)) = some s.caching := by
  obtain ⟨enabled, directory⟩ := s.caching
  cases directory <;> rfl

theorem declarationOfToml?_section : declarationOfToml? (.table [
    ("enabled", .bool s.declaration.enabled),
    ("file_name", .string s.declaration.fileName),
    ("field", .string s.declaration.field),
    ("extensions", .bool s.declaration.extensions)]) = some s.declaration := rfl

end Sections

theorem tablesOf_sections (s : Settings) : Toml.tablesOf s.sections = [
    ("general", .table [("log_format", .string s.general.logFormat)]),
    ("resolver", .table [
      ("order", .array ((s.policy.order.map Goal.name).map .string)),
      ("parse_timeout_ms", .integer s.policy.timeLimit.toNat),
      ("jobs", .integer s.policy.jobs.toNat)]),
    ("cache", .table (("enabled", .bool s.caching.enabled) ::
      (s.caching.directory.map fun directory => ("dir", Toml.string directory)).toList)),
    ("manifest", .table [
      ("enabled", .bool s.declaration.enabled),
      ("file_name", .string s.declaration.fileName),
      ("field", .string s.declaration.field),
      ("extensions", .bool s.declaration.extensions)])] := by
  unfold Toml.tablesOf sections
  cases s.caching.directory <;> rfl

theorem ofToml?_sections (s : Settings) : ofToml? (.table (Toml.tablesOf s.sections)) = some s := by
  have hgeneral : fieldOr {} generalOfToml? ((Toml.tablesOf s.sections).lookup "general") =
      some s.general := by
    rw [tablesOf_sections]
    exact generalOfToml?_section s
  have hpolicy : fieldOr {} policyOfToml? ((Toml.tablesOf s.sections).lookup "resolver") =
      some s.policy := by
    rw [tablesOf_sections]
    exact policyOfToml?_section s
  have hcaching : fieldOr {} cachingOfToml? ((Toml.tablesOf s.sections).lookup "cache") =
      some s.caching := by
    rw [tablesOf_sections]
    exact cachingOfToml?_section s
  have hdeclaration : fieldOr {} declarationOfToml? ((Toml.tablesOf s.sections).lookup "manifest") =
      some s.declaration := by
    rw [tablesOf_sections]
    exact declarationOfToml?_section s
  unfold ofToml?
  dsimp only
  rw [hgeneral, hpolicy, hcaching, hdeclaration]
  rfl

theorem ofText?_text {text : String} (h : s.text = .ok text) : ofText? text.toList = some s := by
  by_cases hsmall : s.HasSmallNumbers
  · rw [text_ok hsmall] at h
    cases h
    unfold ofText?
    rw [String.toList_ofList, Toml.read?_writeSections (isWritable_sections hsmall) (isDistinct_sections s)]
    exact ofToml?_sections s
  · rw [text_error hsmall] at h
    cases h

end Settings
end ParseGoal
