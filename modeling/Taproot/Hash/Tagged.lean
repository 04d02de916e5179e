import Taproot.Hash.Sha256

/-! # Tagged hashes

A hash that is bound to its purpose: the digest of the tag stands twice before the data.
-/
namespace Taproot

inductive HashTag
  | tapLeaf
  | tapBranch
  | tapTweak
  | tapSighash
  | aux
  | nonce
  | challenge
  deriving DecidableEq, Repr

def HashTag.name : HashTag → String
  | tapLeaf => "TapLeaf"
  | tapBranch => "TapBranch"
  | tapTweak => "TapTweak"
  | tapSighash => "TapSighash"
  | aux => "BIP0340/aux"
  | nonce => "BIP0340/nonce"
  | challenge => "BIP0340/challenge"

def utf8 (s : String) : Bytes := s.toUTF8.data.toList

def taggedHash (tag : String) (data : Bytes) : Bytes :=
  let t := sha256 (utf8 tag)
  sha256 (t ++ t ++ data)

def HashTag.hash (tag : HashTag) (data : Bytes) : Bytes := taggedHash tag.name data

@[simp] theorem HashTag.length_hash (tag : HashTag) (data : Bytes) : (tag.hash data).length = 32 :=
  rfl

end Taproot
