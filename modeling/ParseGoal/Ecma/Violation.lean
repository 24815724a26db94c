import ParseGoal.Ecma.Lexeme
import ParseGoal.Goal

/-! What makes a source fail: faults under every goal, restrictions under one. -/
namespace ParseGoal.Ecma

/-- Something at a byte offset of a text. -/
structure Located (α : Type) where
  offset : Nat
  what : α
  deriving DecidableEq

/-- A defect of the lexical structure. It fails every goal. -/
inductive Fault where
  | openComment
  | openString
  | openRegex
  | openTemplate
  /-- A bracket that is never closed. -/
  | unclosed (d : Delimiter)
  /-- A closing bracket where none is open. -/
  | unexpected (d : Delimiter)
  /-- A closing bracket of another kind than the innermost open one. -/
  | mismatched (found expected : Delimiter)
  deriving DecidableEq

/-- The sentence that reports a fault. -/
def Fault.message : Fault → String
  | .openComment => "unterminated comment"
  | .openString => "unterminated string literal"
  | .openRegex => "unterminated regular expression literal"
  | .openTemplate => "unterminated template literal"
  | .unclosed d => s!"unclosed '{d.opener}'"
  | .unexpected d => s!"unexpected '{d.closer}'"
  | .mismatched found expected => s!"unexpected '{found.closer}', expected '{expected.closer}'"

/-- A construct that one goal rejects. -/
inductive Restriction where
  | importDeclaration
  | exportDeclaration
  | importMeta
  | await
  | forAwait
  | htmlComment
  | octalEscape
  | legacyNumber
  | withStatement
  /-- A word that strict code reserves, used as a name. -/
  | reservedWord (word : String)
  deriving DecidableEq

namespace Restriction

/-- The goal that rejects the construct. -/
def goal : Restriction → Goal
  | .importDeclaration | .exportDeclaration | .importMeta | .await | .forAwait => .script
  | .htmlComment | .octalEscape | .legacyNumber | .withStatement | .reservedWord _ => .module

/-- The sentence that reports the construct. -/
def message : Restriction → String
  | .importDeclaration => "import declarations may only appear in module code"
  | .exportDeclaration => "export declarations may only appear in module code"
  | .importMeta => "'import.meta' is only valid in module code"
  | .await => "'await' is only valid in async functions and module code"
  | .forAwait => "'for await' is only valid in async functions and module code"
  | .htmlComment => "HTML-like comments are not allowed in module code"
  | .octalEscape => "octal escape sequences are not allowed in module code"
  | .legacyNumber => "legacy octal and leading-zero literals are not allowed in module code"
  | .withStatement => "'with' statements are not allowed in module code"
  | .reservedWord word => s!"'{word}' is a reserved word in module code"

end Restriction
end ParseGoal.Ecma
