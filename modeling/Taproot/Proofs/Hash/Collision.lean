import Taproot.Hash.Tagged

/-! # Collisions

What a computation hashes. That its result binds what went into it is said without any assumption on
the hash functions: either the parts are equal, or two of the inputs that were hashed collide.
-/
namespace Taproot

/-- Bytes that are hashed, by SHA-256 alone or under a tag. -/
structure HashInput where
  tag : Option HashTag
  data : Bytes
  deriving DecidableEq, Repr

namespace HashInput

def digest (i : HashInput) : Bytes :=
  match i.tag with
  | none => sha256 i.data
  | some tag => tag.hash i.data

/-- Different inputs with one digest. -/
def Collides (i j : HashInput) : Prop := i ≠ j ∧ i.digest = j.digest

end HashInput
end Taproot
