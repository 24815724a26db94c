import Mathlib.Data.List.Induction
import Mathlib.Tactic.SplitIfs
import ParseGoal.Ecma.Lexeme

/-!
Words of brackets: which of them are well nested, and which bracket is the innermost open one. A stack
of what is open tells both.
-/
namespace ParseGoal.Ecma

theorem ofOpener?_eq_none {c : Char} (h : ∀ d : Delimiter, c ≠ d.opener) : Delimiter.ofOpener? c = none := by
  have hround : c ≠ '(' := h .round
  have hsquare : c ≠ '[' := h .square
  have hcurly : c ≠ '{' := h .curly
  rw [Delimiter.ofOpener?, if_neg hround, if_neg hsquare, if_neg hcurly]

theorem ofCloser?_eq_none {c : Char} (h : ∀ d : Delimiter, c ≠ d.closer) : Delimiter.ofCloser? c = none := by
  have hround : c ≠ ')' := h .round
  have hsquare : c ≠ ']' := h .square
  have hcurly : c ≠ '}' := h .curly
  rw [Delimiter.ofCloser?, if_neg hround, if_neg hsquare, if_neg hcurly]

theorem eq_opener {c : Char} {d : Delimiter} (h : Delimiter.ofOpener? c = some d) : c = d.opener := by
  rw [Delimiter.ofOpener?] at h
  split_ifs at h with hround hsquare hcurly <;> obtain rfl := Option.some.inj h <;> assumption

theorem eq_closer {c : Char} {d : Delimiter} (h : Delimiter.ofCloser? c = some d) : c = d.closer := by
  rw [Delimiter.ofCloser?] at h
  split_ifs at h with hround hsquare hcurly <;> obtain rfl := Option.some.inj h <;> assumption

/-- One of the six brackets. -/
inductive Bracket where
  | opens (d : Delimiter)
  | closes (d : Delimiter)
  deriving DecidableEq

namespace Bracket

def char : Bracket → Char
  | opens d => d.opener
  | closes d => d.closer

/-- The bracket that a character is. -/
def ofChar? (c : Char) : Option Bracket :=
  (Delimiter.ofOpener? c).map opens <|> (Delimiter.ofCloser? c).map closes

@[simp] theorem ofChar?_opener (d : Delimiter) : ofChar? d.opener = some (opens d) := by cases d <;> rfl

@[simp] theorem ofChar?_closer (d : Delimiter) : ofChar? d.closer = some (closes d) := by cases d <;> rfl

theorem ofChar?_eq_none {c : Char} (h : ∀ b : Bracket, c ≠ b.char) : ofChar? c = none := by
  rw [ofChar?, ofOpener?_eq_none fun d => h (opens d), ofCloser?_eq_none fun d => h (closes d)]
  rfl

theorem ofChar?_char (b : Bracket) : ofChar? b.char = some b := by
  cases b with
  | opens d => exact ofChar?_opener d
  | closes d => exact ofChar?_closer d

end Bracket

/-- The brackets of a text, and nothing else of it. -/
def brackets (text : List Char) : List Bracket := text.filterMap Bracket.ofChar?

@[simp] theorem brackets_append (text more : List Char) :
    brackets (text ++ more) = brackets text ++ brackets more := List.filterMap_append

theorem brackets_cons_of_none {c : Char} (h : Bracket.ofChar? c = none) (text : List Char) :
    brackets (c :: text) = brackets text := List.filterMap_cons_none h

@[simp] theorem brackets_opener (d : Delimiter) (text : List Char) :
    brackets (d.opener :: text) = .opens d :: brackets text :=
  List.filterMap_cons_some (Bracket.ofChar?_opener d)

@[simp] theorem brackets_closer (d : Delimiter) (text : List Char) :
    brackets (d.closer :: text) = .closes d :: brackets text :=
  List.filterMap_cons_some (Bracket.ofChar?_closer d)

theorem brackets_map_char (word : List Bracket) : brackets (word.map Bracket.char) = word := by
  induction word with
  | nil => rfl
  | cons b word ih =>
    rw [List.map_cons, brackets, List.filterMap_cons_some b.ofChar?_char, ← brackets, ih]

/-- Words in which every bracket has its partner. -/
inductive WellNested : List Bracket → Prop
  | nil : WellNested []
  | wrap {word : List Bracket} (d : Delimiter) (h : WellNested word) :
      WellNested (.opens d :: (word ++ [.closes d]))
  | append {word more : List Bracket} (h : WellNested word) (hmore : WellNested more) :
      WellNested (word ++ more)

/-- The innermost open bracket of a word: what stands behind it is well nested. -/
def Innermost (word : List Bracket) (d : Delimiter) : Prop :=
  ∃ outer inner, word = outer ++ .opens d :: inner ∧ WellNested inner

/-- Every closing bracket closes the innermost open one. -/
def ClosersMatch (word : List Bracket) : Prop :=
  ∀ before d after, word = before ++ .closes d :: after → Innermost before d

/-- What is open after a word, innermost first, unless a closing bracket closes something else. -/
def follow : List Delimiter → List Bracket → Option (List Delimiter)
  | stack, [] => some stack
  | stack, .opens d :: word => follow (d :: stack) word
  | [], .closes _ :: _ => none
  | e :: stack, .closes d :: word => if e = d then follow stack word else none

theorem follow_append (stack : List Delimiter) (word more : List Bracket) :
    follow stack (word ++ more) = (follow stack word).bind (follow · more) := by
  fun_induction follow stack word with
  | case1 => rfl
  | case2 stack d word ih => rw [List.cons_append, follow, ih]
  | case3 => rfl
  | case4 d stack word ih => rw [List.cons_append, follow, if_pos rfl, ih]
  | case5 e stack d word hne => rw [List.cons_append, follow, if_neg hne, Option.bind_none]

/-- What is well nested leaves open what was open. -/
theorem WellNested.follow {word : List Bracket} (h : WellNested word) (stack : List Delimiter) :
    follow stack word = some stack := by
  induction h generalizing stack with
  | nil => rfl
  | wrap d _ ih => rw [Ecma.follow, follow_append, ih, Option.bind_some, Ecma.follow, if_pos rfl, Ecma.follow]
  | append _ _ ih ih' => rw [follow_append, ih, Option.bind_some, ih']

theorem follow_closes {stack stack' : List Delimiter} {d : Delimiter} {word : List Bracket}
    (h : follow stack (.closes d :: word) = some stack') :
    ∃ outer, stack = d :: outer ∧ follow outer word = some stack' := by
  cases stack with
  | nil => cases h
  | cons e stack =>
    rw [follow] at h
    split at h
    · next heq => exact ⟨stack, heq ▸ rfl, h⟩
    · cases h

/-- A word that leaves a stack of open brackets, with what is well nested between them. -/
def Leaves (word : List Bracket) : List Delimiter → Prop
  | [] => WellNested word
  | d :: stack => ∃ outer inner, word = outer ++ .opens d :: inner ∧ WellNested inner ∧ Leaves outer stack

theorem Leaves.append {word more : List Bracket} {stack : List Delimiter} (h : Leaves word stack)
    (hmore : WellNested more) : Leaves (word ++ more) stack := by
  cases stack with
  | nil => exact WellNested.append h hmore
  | cons d stack =>
    obtain ⟨outer, inner, rfl, hinner, houter⟩ := h
    exact ⟨outer, inner ++ more, by simp, .append hinner hmore, houter⟩

theorem Leaves.follow {word : List Bracket} {stack : List Delimiter} (h : Leaves word stack) :
    follow [] word = some stack := by
  induction stack generalizing word with
  | nil => exact WellNested.follow h []
  | cons d stack ih =>
    obtain ⟨outer, inner, rfl, hinner, houter⟩ := h
    rw [follow_append, ih houter, Option.bind_some, Ecma.follow, hinner.follow]

theorem leaves_of_follow {word : List Bracket} {stack : List Delimiter} (h : follow [] word = some stack) :
    Leaves word stack := by
  -- From the end of the word, since its last bracket tells what is innermost.
  induction word using List.reverseRecOn generalizing stack with
  | nil =>
    obtain rfl := Option.some.inj h
    exact WellNested.nil
  | append_singleton word b ih =>
    rw [follow_append, Option.bind_eq_some_iff] at h
    obtain ⟨before, hbefore, hlast⟩ := h
    cases b with
    | opens d =>
      obtain rfl : d :: before = stack := Option.some.inj hlast
      exact ⟨word, [], rfl, .nil, ih hbefore⟩
    | closes d =>
      obtain ⟨outer, rfl, hstack⟩ := follow_closes hlast
      obtain rfl := Option.some.inj hstack
      obtain ⟨before, inner, rfl, hinner, hleaves⟩ := ih hbefore
      have hpair := hleaves.append (.wrap d hinner)
      rwa [← List.cons_append, ← List.append_assoc] at hpair

theorem innermost_iff {word : List Bracket} {stack : List Delimiter} (h : follow [] word = some stack)
    (d : Delimiter) : Innermost word d ↔ stack.head? = some d := by
  constructor
  · rintro ⟨outer, inner, rfl, hinner⟩
    rw [follow_append, Option.bind_eq_some_iff] at h
    obtain ⟨before, -, h⟩ := h
    rw [follow, hinner.follow] at h
    obtain rfl := Option.some.inj h
    rfl
  · intro hhead
    obtain ⟨stack, rfl⟩ := List.head?_eq_some_iff.1 hhead
    obtain ⟨outer, inner, hword, hinner, -⟩ := leaves_of_follow h
    exact ⟨outer, inner, hword, hinner⟩

theorem closersMatch_iff {word : List Bracket} : ClosersMatch word ↔ ∃ stack, follow [] word = some stack := by
  constructor
  · intro h
    induction word using List.reverseRecOn with
    | nil => exact ⟨[], rfl⟩
    | append_singleton word b ih =>
      obtain ⟨stack, hstack⟩ := ih fun before d after hword => h before d (after ++ [b]) (by simp [hword])
      rw [follow_append, hstack, Option.bind_some]
      cases b with
      | opens d => exact ⟨_, rfl⟩
      | closes d =>
        obtain ⟨outer, rfl⟩ := List.head?_eq_some_iff.1 ((innermost_iff hstack d).1 (h word d [] rfl))
        exact ⟨outer, if_pos rfl⟩
  · rintro ⟨stack, hstack⟩ before d after rfl
    rw [follow_append, Option.bind_eq_some_iff] at hstack
    obtain ⟨stack', hopen, hclose⟩ := hstack
    obtain ⟨outer, rfl, -⟩ := follow_closes hclose
    exact (innermost_iff hopen d).2 rfl

end ParseGoal.Ecma
