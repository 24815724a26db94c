import ParseGoal.Digest.Sha256

/-! Fingerprints tell whether a source is still the one that was seen. -/
namespace ParseGoal

/-- What is kept of a source's content. -/
structure Fingerprint where
  /-- Half of the content's hash, as hexadecimal digits. -/
  hash : String
  /-- The content's length in bytes. -/
  len : UInt64
  deriving DecidableEq

namespace Fingerprint

/-- The fingerprint of some bytes. -/
def ofBytes (bytes : Bytes) : Fingerprint :=
  ⟨Sha256.hex ((Sha256.hash bytes).take 16), UInt64.ofNat bytes.length⟩

/-- Hash and length as they are shown. -/
def text (f : Fingerprint) : String := s!"{f.hash}:{f.len.toNat}"

end Fingerprint

/-- A source under its key, the same throughout one resolution. -/
structure SourceUnit where
  /-- The canonical path, for files. -/
  key : String
  bytes : Bytes
  deriving DecidableEq

/-- The fingerprint of the content. -/
def SourceUnit.fingerprint (unit : SourceUnit) : Fingerprint := .ofBytes unit.bytes

end ParseGoal
