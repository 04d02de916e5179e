import Taproot.Hash.Tagged
import Taproot.Key.Secret

/-! # X-only public keys and their tweaks

An output key is the internal key plus a multiple of the generator that commits to the internal key
and, where there is a script tree, to its root.
-/
namespace Taproot

namespace PublicKey

/-- The point with an even `y` that 32 bytes stand for. -/
def point? (key : Bytes) : Option Curve.Point :=
  if key.length = 32 then Curve.liftX key.toNatBE else none

def validate (key : Bytes) : Except KeyError Unit :=
  if key.length ≠ 32 then .error (.keyLength key.length)
  else if (point? key).isSome then .ok ()
  else .error (.notOnCurve key)

end PublicKey

def tapTweak (internalKey : Bytes) (root : Option Bytes) : Bytes :=
  HashTag.tapTweak.hash (internalKey ++ root.getD [])

structure OutputKey where
  key : Bytes
  /-- The point of the output key has an odd `y`. -/
  odd : Bool
  deriving DecidableEq, Repr

def PublicKey.tweak (internalKey : Bytes) (root : Option Bytes) : Except KeyError OutputKey :=
  let t := (tapTweak internalKey root).toNatBE
  match point? internalKey with
  | none => .error (.tweakFailed internalKey)
  | some inner =>
    if Curve.n ≤ t then .error (.tweakFailed internalKey)
    else
      match inner.add (Curve.multiply t Curve.generator) with
      | .infinity => .error (.tweakFailed internalKey)
      | .affine x y => .ok ⟨Bytes.ofNatBE 32 x, y % 2 = 1⟩

/-- The secret of the output key. -/
def Secret.tweak (secret : Bytes) (root : Option Bytes) : Except KeyError Bytes := do
  let even ← normalize secret
  let internalKey ← publicKey even
  let t := (tapTweak internalKey root).toNatBE
  if Curve.n ≤ t then throw .tweakTooLarge
  let tweaked := (even.toNatBE + t) % Curve.n
  if tweaked = 0 then throw .tweakedSecretZero
  return Bytes.ofNatBE 32 tweaked

end Taproot
